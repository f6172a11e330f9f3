import Tidy.Fault
import Tidy.Path

/-!
# File trees

The files that an operation can see are a value: a current directory and the
files and directories by their absolute components.  Looking up a path walks it
component by component, so a path through something that is no directory leads
nowhere.
-/

namespace Tidy

inductive Node where
  | file (bytes : List UInt8)
  | directory
  deriving DecidableEq

/-- Files and directories; the root directory always exists. -/
structure FileTree where
  /-- The directory from which relative paths are read. -/
  directory : Path
  nodes : List (List String × Node) := []

namespace FileTree

def node? (tree : FileTree) (place : List String) : Option Node :=
  if place.isEmpty then some .directory else tree.nodes.lookup place

/-- The most bytes in a file name. -/
def nameLimit : Nat := 255

/-- The most bytes in a path. -/
def pathLimit : Nat := 4095

inductive Lookup where
  | found (node : Node)
  | missing
  | nameTooLong
  deriving DecidableEq

def walk (tree : FileTree) (place : List String) : List String → Lookup
  | [] =>
      match tree.node? place with
      | none => .missing
      | some node => .found node
  | part :: rest =>
      if tree.node? place != some .directory then .missing
      else if part == ".." then walk tree place.dropLast rest
      else if nameLimit < part.utf8ByteSize then .nameTooLong
      else walk tree (place ++ [part]) rest

def lookup (tree : FileTree) (path : Path) : Lookup :=
  if pathLimit < path.toString.utf8ByteSize then .nameTooLong
  else tree.walk [] (tree.directory.join path).parts

/-- Whether a path holds a NUL character, which no file name can hold. -/
def hasNul (path : Path) : Bool :=
  path.parts.any fun part => part.toList.contains '\x00'

def contains (tree : FileTree) (path : Path) : Except Fault Bool :=
  if hasNul path then .ok false
  else
    match tree.lookup path with
    | .found _ => .ok true
    | .missing => .ok false
    | .nameTooLong => .error (.nameTooLong path.toString)

def read (tree : FileTree) (path : Path) : Except Fault (List UInt8) :=
  if hasNul path then .error .nulInPath
  else
    match tree.lookup path with
    | .found (.file bytes) => .ok bytes
    | .found .directory => .error (.isDirectory path.toString)
    | .missing => .error (.missingFile path.toString)
    | .nameTooLong => .error (.nameTooLong path.toString)

def resolve (tree : FileTree) (path : Path) : Except Fault Path :=
  if hasNul path then .error .nulInPath else .ok (tree.directory.resolve path)

/-- Put a node at a place, over whatever stood there. -/
def put (place : List String) (node : Node) (nodes : List (List String × Node)) :
    List (List String × Node) :=
  (place, node) :: nodes.filter fun entry => entry.1 != place

/-- The places of the directories above a place. -/
def parents (place : List String) : List (List String) :=
  (List.range place.length).map place.take

def checkName (path : Path) : Except Fault Unit :=
  if hasNul path then .error .nulInPath
  else if pathLimit < path.toString.utf8ByteSize ||
      path.parts.any fun part => nameLimit < part.utf8ByteSize then
    .error (.nameTooLong path.toString)
  else .ok ()

/-- The tree with a node at a path; missing directories above it are made. -/
def insert (tree : FileTree) (path : Path) (node : Node) : Except Fault FileTree := do
  let full := tree.directory.join path
  checkName full
  let place := (tree.directory.resolve path).parts
  match node, tree.node? place with
  | .file _, some .directory => .error (.isDirectory full.toString)
  | _, _ =>
      let made := (parents place).foldl (fun nodes above => put above .directory nodes) tree.nodes
      .ok { tree with nodes := put place node made }

def erase (tree : FileTree) (path : Path) : Except Fault FileTree := do
  let full := tree.directory.join path
  checkName full
  let place := (tree.directory.resolve path).parts
  match tree.node? place with
  | none => .error (.missingFile full.toString)
  | some .directory => .error (.isDirectory full.toString)
  | some (.file _) =>
      .ok { tree with nodes := tree.nodes.filter fun entry => entry.1 != place }

end FileTree

end Tidy
