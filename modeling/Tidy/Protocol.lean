import Tidy.Document
import Tidy.Uri.Basic

/-!
# The editor's protocol

What editors send is read and checked by a protocol before it is used: resource names
are read as file paths, and numbers have to lie within bounds.  A workspace works with
any protocol.  In the usual one versions are signed and coordinates are natural
numbers, all of at most 31 bits.
-/

namespace Tidy

structure Coordinates where
  line : Int
  character : Int
  deriving DecidableEq

/-- A change as it is sent. -/
structure SentChange where
  text : Text
  range : Option (Coordinates × Coordinates) := none
  deriving DecidableEq

/-- How a protocol reads and checks what is sent. -/
structure Protocol where
  /-- The file path of a resource name; nothing when the name is malformed. -/
  filePath? : String → Option String
  /-- Check a document that is opened. -/
  checkOpened : DocumentItem → Except Fault Unit
  /-- Check the version of a document that was changed. -/
  checkChanged : Int → Except Fault Unit
  /-- Check the version of a document that edits are sent for. -/
  checkEdited : Int → Except Fault Unit
  /-- The position of coordinates. -/
  position : Coordinates → Except Fault Position

namespace Protocol

def change (protocol : Protocol) (sent : SentChange) : Except Fault Change :=
  match sent.range with
  | none => .ok { text := sent.text }
  | some (start, stop) => do
      let start ← protocol.position start
      let stop ← protocol.position stop
      return { text := sent.text, range := some ⟨start, stop⟩ }

def changes (protocol : Protocol) (sent : List SentChange) : Except Fault (List Change) :=
  sent.mapM protocol.change

/-- The parts of a message, unless some checks failed; the fault tells how many. -/
def structured {Parts : Type} (kind : String) (failed : List Bool) (parts : Parts) :
    Except Fault Parts :=
  match failed.count true with
  | 0 => .ok parts
  | places => .error (.malformedParameters kind places)

/-! ## The usual protocol -/

def least : Int := -2147483648

/-- The greatest version, line and column. -/
def greatest : Int := 2147483647

def check (subject : String) (low value : Int) : Except Fault Unit :=
  if low ≤ value && value ≤ greatest then .ok ()
  else .error (.outOfBounds subject low greatest value)

def usual : Protocol where
  filePath? := Uri.filePath?
  checkOpened := fun item => check "TextDocumentItem.version" least item.version
  checkChanged := check "VersionedTextDocumentIdentifier.version" least
  checkEdited := check "OptionalVersionedTextDocumentIdentifier.version" least
  position := fun coordinates => do
    check "Position.line" 0 coordinates.line
    check "Position.character" 0 coordinates.character
    return Position.clamped coordinates.line coordinates.character

end Protocol

end Tidy
