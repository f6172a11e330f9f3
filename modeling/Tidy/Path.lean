/-!
# Paths

A path is a root (none, one slash, or exactly two) and a list of components
without empty ones and single dots.
-/

namespace Tidy

structure Path where
  root : String
  parts : List String
  deriving DecidableEq

namespace Path

/-- Read a path: repeated slashes, single dots and a trailing slash vanish. -/
def ofString (text : String) : Path :=
  let characters := text.toList
  let slashes := (characters.takeWhile fun character => character == '/').length
  { root :=
      if slashes == 0 then "" else if slashes == 2 then "//" else "/"
    parts :=
      ((characters.splitOnP fun character => character == '/').map String.ofList).filter
        fun part => part != "" && part != "." }

def toString (path : Path) : String :=
  if path.root == "" && path.parts.isEmpty then "."
  else path.root ++ String.intercalate "/" path.parts

def isAbsolute (path : Path) : Bool :=
  path.root != ""

/-- A path read from another one. -/
def join (base path : Path) : Path :=
  if path.isAbsolute then path else { base with parts := base.parts ++ path.parts }

/-- The last component, empty when there is none. -/
def name (path : Path) : String :=
  path.parts.getLast?.getD ""

/-- The part of the name from its last dot on; empty when that dot is the
first or the last character. -/
def extension (path : Path) : String :=
  let characters := path.name.toList
  let tail := (characters.reverse.takeWhile fun character => character != '.').reverse
  if tail.isEmpty || characters.length ≤ tail.length + 1 then ""
  else String.ofList ('.' :: tail)

/-- Let every double dot cancel the component before it. -/
def collapse (done : List String) : List String → List String
  | [] => done
  | ".." :: rest => collapse done.dropLast rest
  | part :: rest => collapse (done ++ [part]) rest

def resolve (directory path : Path) : Path :=
  { root := "/", parts := collapse [] (directory.join path).parts }

end Path

end Tidy
