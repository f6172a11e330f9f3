import Tidy.Number.Shortest
import Tidy.Text.Digit
import Tidy.Text.Quoted
import Tidy.Value.Calendar

/-!
# Configuration values

The values that configuration files hold.  Tables keep their entries in the
order of first appearance.  Messages show a value in one of two ways: `shown`
spells out what kind of value it is, `plain` gives text and dates as they are.
Values with endless integers and values that nest too deeply cannot be shown.
-/

namespace Tidy

inductive Value where
  | null
  | bool (value : Bool)
  | integer (value : Int)
  | double (value : Double)
  | text (value : Text)
  | date (value : Date)
  | time (value : Time)
  /-- A day and a time, with an offset in minutes if there is one. -/
  | moment (day : Date) (clock : Time) (offset : Option Int)
  | list (items : List Value)
  | table (entries : List (Text × Value))

namespace Value

def commaSeparated (numbers : List Nat) : String :=
  String.intercalate ", " (numbers.map toString)

inductive Unshowable where
  /-- One of its integers has too many digits. -/
  | integerTooLong
  /-- Its lists and tables nest too deeply. -/
  | nestedTooDeeply
  deriving DecidableEq

def shownInteger (value : Int) : Except Unshowable String :=
  if Text.digitLimit < (Nat.toDigits 10 value.natAbs).length then .error .integerTooLong
  else .ok (toString value)

mutual

/-- Show a value with its kind; lists and tables may nest as deeply as there is
room. -/
def shownWithin (room : Nat) : Value → Except Unshowable String
  | .null => .ok "None"
  | .bool value => .ok (if value then "True" else "False")
  | .integer value => shownInteger value
  | .double value => .ok value.write
  | .text value => .ok value.quoted
  | .date value => .ok ("datetime.date(" ++ commaSeparated value.numbers ++ ")")
  | .time value => .ok ("datetime.time(" ++ commaSeparated value.numbers ++ ")")
  | .moment day clock offset =>
      .ok ("datetime.datetime(" ++ commaSeparated (day.numbers ++ clock.numbers) ++
        (match offset with
        | none => ""
        | some minutes => ", tzinfo=" ++ shownOffset minutes) ++ ")")
  | .list items =>
      if room == 0 then .error .nestedTooDeeply
      else do
        let shown ← shownItems (room - 1) items
        return "[" ++ String.intercalate ", " shown ++ "]"
  | .table entries =>
      if room == 0 then .error .nestedTooDeeply
      else do
        let shown ← shownEntries (room - 1) entries
        return "\x7b" ++ String.intercalate ", " shown ++ "\x7d"

def shownItems (room : Nat) : List Value → Except Unshowable (List String)
  | [] => .ok []
  | item :: rest => do
      let shown ← item.shownWithin room
      let others ← shownItems room rest
      return shown :: others

def shownEntries (room : Nat) : List (Text × Value) → Except Unshowable (List String)
  | [] => .ok []
  | (key, value) :: rest => do
      let shown ← value.shownWithin room
      let others ← shownEntries room rest
      return (key.quoted ++ ": " ++ shown) :: others

end

def nestingLimit : Nat := 990

/-- Show a value with its kind. -/
def shown (value : Value) : Except Unshowable String :=
  value.shownWithin nestingLimit

def plain : Value → Except Unshowable Text
  | .text value => .ok value
  | .date value => .ok value.plain
  | .time value => .ok value.plain
  | .moment day clock offset =>
      .ok (day.plain ++ " " ++ clock.plain ++
        (match offset with
        | none => ""
        | some minutes => plainOffset minutes))
  | other => do
      let shown ← other.shown
      return (shown : Text)

/-- Whether a value counts as absent: nothing, no, zero or empty. -/
def isVoid : Value → Bool
  | .null => true
  | .bool value => !value
  | .integer value => value == 0
  | .double value => value.isZero
  | .text value => value.isEmpty
  | .list items => items.isEmpty
  | .table entries => entries.isEmpty
  | .date _ => false
  | .time _ => false
  | .moment _ _ _ => false

/-- Set an entry of a table; a new one goes to the end. -/
def setEntry (key : Text) (value : Value) :
    List (Text × Value) → List (Text × Value)
  | [] => [(key, value)]
  | (other, present) :: rest =>
      if other == key then (key, value) :: rest
      else (other, present) :: setEntry key value rest

end Value

end Tidy
