import Tidy.Text.Basic

/-!
# Log records

Records are values: an operation that logs returns what it wrote.
-/

namespace Tidy.Log

inductive Level where
  | debug
  | info
  | warning
  deriving DecidableEq

def Level.name : Level → String
  | .debug => "DEBUG"
  | .info => "INFO"
  | .warning => "WARNING"

def Level.severity : Level → Int
  | .debug => 10
  | .info => 20
  | .warning => 30

/-- What a record about a finished formatting pass carries besides its text. -/
structure PassNote where
  uri : String
  passes : List String
  deriving DecidableEq

structure Record where
  level : Level
  logger : String
  message : Text
  pass : Option PassNote := none
  deriving DecidableEq

def passFinished (uri : String) (passes : List String) (edits : Nat) : Record :=
  { level := .info
    logger := "smartfmt.format"
    message :=
      "Formatting pass on " ++ uri ++ " produced " ++ toString edits ++ " edit(s)"
    pass := some { uri := uri, passes := passes } }

def thresholds : List (String × Int) :=
  [("CRITICAL", 50), ("FATAL", 50), ("ERROR", 40), ("WARN", 30),
   ("WARNING", 30), ("INFO", 20), ("DEBUG", 10), ("NOTSET", 0)]

/-- The capital of a letter, as far as it can occur in the name of a threshold:
the basic letters, the dotless i and the long s. -/
def capital (character : Char) : Char :=
  if character == 'ı' then 'I'
  else if character == 'ſ' then 'S'
  else character.toUpper

/-- The threshold of a name in any case of its letters; a name that is not
known means the same as `INFO`. -/
def threshold (name : String) : Int :=
  (thresholds.lookup (String.ofList (name.toList.map capital))).getD 20

def filter (threshold : Int) (records : List Record) : List Record :=
  records.filter fun record => decide (threshold ≤ record.level.severity)

end Tidy.Log
