import Tidy.FileTree
import Tidy.Settings.Basic
import Tidy.Toml.Reader

/-!
# Settings files

A workspace folder can hold a settings file, in TOML or in JSON.  `load` finds it
and reads it.
-/

namespace Tidy.Settings

/-- The names of settings files; the first one that exists counts. -/
def fileNames : List String :=
  ["smartfmt.toml", ".smartfmtrc"]

def readToml (characters : List Char) : Except Problem Value :=
  let document := Utf8.withFeeds false characters
  match Toml.parse document with
  | .ok value => .ok value
  | .error (.malformed reason remaining) =>
      .error (.malformedToml (Toml.located document reason remaining))
  | .error (.tooManyDigits count) => .error (.escaping (.tooManyDigits count))
  | .error .nestedTooDeeply => .error (.escaping (.nestingLimit .performing))

def readJson (characters : List Char) : Except Problem Value :=
  let document := Utf8.withFeeds true characters
  match Json.parse document with
  | .ok value => .ok value
  | .error (.malformed reason remaining) =>
      let (line, column) := Text.lineColumn document (document.length - remaining)
      .error (.malformedJson reason line column)
  | .error (.tooManyDigits count) => .error (.escaping (.tooManyDigits count))
  | .error (.nestedTooDeeply isList) =>
      .error (.escaping (.nestingLimit (if isList then .readingArray else .readingObject)))

/-- The settings in the bytes of a file; its extension tells the format. -/
def ofBytes (extension : String) (bytes : List UInt8) : Except Problem Settings := do
  let characters ←
    match Utf8.decode bytes with
    | .ok characters => .ok characters
    | .error flaw => .error (.escaping (.undecodable flaw))
  let value ← if extension == ".toml" then readToml characters else readJson characters
  ofValue value

def firstPresent (tree : FileTree) : List Path → Except Fault (Option Path)
  | [] => .ok none
  | path :: rest => do
      if ← tree.contains path then return some path
      firstPresent tree rest

/-- Find the settings file: the explicit one if one is given, else one in the
folder. -/
def locate (tree : FileTree) (root : Path) (explicit : Option Path) :
    Except Fault (Option Path) :=
  match explicit with
  | some path => firstPresent tree [path]
  | none => firstPresent tree (fileNames.map fun name => root.join (Path.ofString name))

def load (tree : FileTree) (root : Path) (explicit : Option Path) : Except Fault Settings := do
  let folder ← tree.resolve root
  match ← locate tree folder explicit with
  | none => return { root := some folder }
  | some path =>
      match ofBytes path.extension (← tree.read path) with
      | .error problem => .error (problem.fault path)
      | .ok settings => return { settings with root := some folder, source := some path }

end Tidy.Settings
