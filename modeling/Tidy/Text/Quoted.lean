import Tidy.Text.Basic
import Tidy.Text.Printable

/-!
# Text in messages

Messages show text between quotes: single ones, or double ones when the text
holds a single quote and no double one.  The backslash and the quote in use are
escaped, as is every code point that is not shown as it is.  Places in a file are
told by line and column.
-/

namespace Tidy.Text

def hexadecimal (width number : Nat) : List Char :=
  let digits := Nat.toDigits 16 number
  List.replicate (width - digits.length) '0' ++ digits

/-- The escape of a code point that is not shown as it is: the shortest of the
three forms with two, four and eight digits. -/
def escapeCode (code : Nat) : List Char :=
  if code < 0x100 then '\\' :: 'x' :: hexadecimal 2 code
  else if code < 0x10000 then '\\' :: 'u' :: hexadecimal 4 code
  else '\\' :: 'U' :: hexadecimal 8 code

/-- One code point as it stands between the given quotes. -/
def quotePoint (quote : Char) : CodePoint → List Char
  | .surrogate index => escapeCode (CodePoint.surrogate index).toNat
  | .scalar character =>
      if character == quote || character == '\\' then ['\\', character]
      else if character == '\n' then ['\\', 'n']
      else if character == '\r' then ['\\', 'r']
      else if character == '\t' then ['\\', 't']
      else if isPrintable character then [character]
      else escapeCode character.toNat

def quoteFor (text : Text) : Char :=
  if text.contains '\'' && !text.contains '"' then '"' else '\''

def quoted (text : Text) : String :=
  let quote := quoteFor text
  String.ofList (quote :: text.flatMap (quotePoint quote) ++ [quote])

/-- The text as it is printed, its surrogates escaped. -/
def printed (text : Text) : String :=
  String.ofList (text.flatMap fun point =>
    match point with
    | .scalar character => [character]
    | .surrogate index => escapeCode (CodePoint.surrogate index).toNat)

/-- Line and column, both from one, of an offset. -/
def lineColumn (characters : List Char) (offset : Nat) : Nat × Nat :=
  let before := characters.take offset
  (before.count '\n' + 1,
    (before.reverse.takeWhile fun character => character != '\n').length + 1)

end Tidy.Text
