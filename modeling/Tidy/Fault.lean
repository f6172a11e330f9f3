import Tidy.Diagnostic
import Tidy.Index
import Tidy.Text.Quoted
import Tidy.Text.Utf8

/-!
# Faults

Everything that can stop an operation: the formatter's own diagnostics, what
reading files runs into, and refusals by the holder of a document.
-/

namespace Tidy

/-- What was under way when things turned out to nest too deeply. -/
inductive Activity where
  | performing
  | readingArray
  | readingObject
  | showing
  deriving DecidableEq

def Activity.message : Activity → String
  | .performing => ""
  | .readingArray => " while decoding a JSON array from a unicode string"
  | .readingObject => " while decoding a JSON object from a unicode string"
  | .showing => " while getting the repr of an object"

inductive Fault where
  /-- A problem that the formatter reports itself. -/
  | reported (diagnostic : Diagnostic)
  /-- A file is not UTF-8. -/
  | undecodable (flaw : Utf8.Flaw)
  /-- A directory stands where a file is read. -/
  | isDirectory (path : String)
  /-- Nothing stands where a file is removed. -/
  | missingFile (path : String)
  /-- A path holds a NUL character. -/
  | nulInPath
  /-- A path or one of its components is longer than such names can be. -/
  | nameTooLong (path : String)
  /-- An infinite number stands where an integer is needed. -/
  | infiniteNumber
  /-- An integer is written with too many digits. -/
  | tooManyDigits (count : Nat)
  /-- An integer would have to be written with too many digits. -/
  | integerTooLong
  /-- An integer is too large for a length. -/
  | lengthTooLarge
  /-- A text is too long to be held. -/
  | outOfMemory
  /-- A number of a message is outside the bounds of the editor's protocol. -/
  | outOfBounds (subject : String) (low high value : Int)
  /-- The parameters of a message do not fit the editor's protocol in a number of
  places. -/
  | malformedParameters (kind : String) (places : Nat)
  /-- A threshold for log records is left open. -/
  | noThreshold
  /-- A surrogate without a pair, at a position of some text, has no encoding in
  UTF-16. -/
  | unencodable (index : Fin 0x800) (position : Nat)
  /-- A list is asked for an item that it does not have. -/
  | noItem (miss : Index.Miss)
  /-- A document that is not open is asked for its language. -/
  | noDocument
  /-- The holder of a document refused an edit. -/
  | refused (message : String)
  /-- Requests, documents or values nest too deeply. -/
  | nestingLimit (activity : Activity)
  deriving DecidableEq

namespace Fault

def flawMessage (flaw : Utf8.Flaw) : String :=
  let position := toString flaw.position
  let place :=
    if flaw.width == 1 then
      "byte 0x" ++ String.ofList (Text.hexadecimal 2 flaw.first.toNat) ++
        " in position " ++ position
    else "bytes in position " ++ position ++ "-" ++ toString (flaw.position + flaw.width - 1)
  "'utf-8' codec can't decode " ++ place ++ ": " ++ flaw.reason.message

def surrogateMessage (index : Fin 0x800) (position : Nat) : String :=
  "'utf-16-le' codec can't encode character '" ++
    String.ofList (Text.escapeCode (CodePoint.surrogate index).toNat) ++ "' in position " ++
    toString position ++ ": surrogates not allowed"

def digitsMessage (known : String) : String :=
  "Exceeds the limit (4300 digits) for integer string conversion" ++ known ++
    "; use sys.set_int_max_str_digits() to increase the limit"

def message : Fault → Text
  | .reported diagnostic => diagnostic.message
  | .undecodable flaw => flawMessage flaw
  | .isDirectory path => "[Errno 21] Is a directory: " ++ Text.quoted path
  | .missingFile path => "[Errno 2] No such file or directory: " ++ Text.quoted path
  | .nulInPath => "embedded null byte"
  | .nameTooLong path => "[Errno 36] File name too long: " ++ Text.quoted path
  | .infiniteNumber => "cannot convert float infinity to integer"
  | .tooManyDigits count => digitsMessage (": value has " ++ toString count ++ " digits")
  | .integerTooLong => digitsMessage ""
  | .lengthTooLarge => Index.tooLargeMessage
  | .outOfMemory => ""
  | .outOfBounds subject low high value =>
      subject ++ " should be in range [" ++ toString low ++ ":" ++ toString high ++
        "], but was " ++ toString value ++ "."
  | .malformedParameters kind places =>
      "While structuring " ++ kind ++ " (" ++ toString places ++
        (if places == 1 then " sub-exception)" else " sub-exceptions)")
  | .noThreshold => "Level not an integer or a valid string: []"
  | .unencodable index position => surrogateMessage index position
  | .noItem miss => miss.message
  | .noDocument => "'NoneType' object has no attribute 'language_id'"
  | .refused message => message
  | .nestingLimit activity => "maximum recursion depth exceeded" ++ activity.message

end Fault

end Tidy
