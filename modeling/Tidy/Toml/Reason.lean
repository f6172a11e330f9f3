import Tidy.Text.Quoted

/-!
# What can be wrong with a TOML document

Each reason has its wording; a failure also knows how much text was left, so
that its line and column can be told.
-/

namespace Tidy.Toml

abbrev Key := List Text

/-- A key between brackets, its parts quoted. -/
def shownKey (key : Key) : String :=
  match key with
  | [part] => "(" ++ part.quoted ++ ",)"
  | parts => "(" ++ String.intercalate ", " (parts.map Text.quoted) ++ ")"

inductive Reason where
  | statement
  | statementEnd
  | equalsSign
  | keyPart
  | tableEnd
  | tableArrayEnd
  | declaredTwice (key : Key)
  | immutable (key : Key)
  | redefined (key : Key)
  | overwritten
  | duplicateKey (part : Text)
  | unclosedArray
  | unclosedTable
  | unterminatedString
  | missing (delimiter : List Char)
  | illegalCharacter (character : Char)
  | invalidCharacter (character : Char)
  | escape
  | hexadecimal
  | notScalar
  | date
  | value
  deriving DecidableEq

def Reason.message : Reason → String
  | .statement => "Invalid statement"
  | .statementEnd => "Expected newline or end of document after a statement"
  | .equalsSign => "Expected '=' after a key in a key/value pair"
  | .keyPart => "Invalid initial character for a key part"
  | .tableEnd => "Expected ']' at the end of a table declaration"
  | .tableArrayEnd => "Expected ']]' at the end of an array declaration"
  | .declaredTwice key => "Cannot declare " ++ shownKey key ++ " twice"
  | .immutable key => "Cannot mutate immutable namespace " ++ shownKey key
  | .redefined key => "Cannot redefine namespace " ++ shownKey key
  | .overwritten => "Cannot overwrite a value"
  | .duplicateKey part => "Duplicate inline table key " ++ part.quoted
  | .unclosedArray => "Unclosed array"
  | .unclosedTable => "Unclosed inline table"
  | .unterminatedString => "Unterminated string"
  | .missing delimiter => "Expected " ++ Text.quoted (Text.ofList delimiter)
  | .illegalCharacter character =>
      "Illegal character " ++ Text.quoted [.scalar character]
  | .invalidCharacter character =>
      "Found invalid character " ++ Text.quoted [.scalar character]
  | .escape => "Unescaped '\\' in a string"
  | .hexadecimal => "Invalid hex value"
  | .notScalar => "Escaped character is not a Unicode scalar value"
  | .date => "Invalid date or datetime"
  | .value => "Invalid value"

inductive Failure where
  /-- The document is wrong where `remaining` characters are left. -/
  | malformed (reason : Reason) (remaining : Nat)
  /-- An integer has too many digits. -/
  | tooManyDigits (count : Nat)
  /-- Arrays and inline tables nest too deeply. -/
  | nestedTooDeeply
  deriving DecidableEq

def fail {Result : Type} (reason : Reason) (text : List Char) : Except Failure Result :=
  .error (.malformed reason text.length)

/-- The reason with its line and column in the document. -/
def located (document : List Char) (reason : Reason) (remaining : Nat) : String :=
  let place :=
    if remaining == 0 then "end of document"
    else
      let (line, column) := Text.lineColumn document (document.length - remaining)
      "line " ++ toString line ++ ", column " ++ toString column
  reason.message ++ " (at " ++ place ++ ")"

end Tidy.Toml
