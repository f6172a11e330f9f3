import Tidy.Text.Basic

/-!
# Digits

Every script's decimal digits stand in a run of ten, so the table lists the
zeros of Unicode 14 alone.  `readInteger?` reads an integer written with them.
Hexadecimal digits are the basic ones and six letters.
-/

namespace Tidy.Text

def decimalZeros : List Nat :=
  [0x30, 0x660, 0x6F0, 0x7C0, 0x966, 0x9E6, 0xA66, 0xAE6, 0xB66, 0xBE6,
   0xC66, 0xCE6, 0xD66, 0xDE6, 0xE50, 0xED0, 0xF20, 0x1040, 0x1090, 0x17E0,
   0x1810, 0x1946, 0x19D0, 0x1A80, 0x1A90, 0x1B50, 0x1BB0, 0x1C40, 0x1C50,
   0xA620, 0xA8D0, 0xA900, 0xA9D0, 0xA9F0, 0xAA50, 0xABF0, 0xFF10, 0x104A0,
   0x10D30, 0x11066, 0x110F0, 0x11136, 0x111D0, 0x112F0, 0x11450, 0x114D0,
   0x11650, 0x116C0, 0x11730, 0x118E0, 0x11950, 0x11C50, 0x11D50, 0x11DA0,
   0x16A60, 0x16AC0, 0x16B50, 0x1D7CE, 0x1D7D8, 0x1D7E2, 0x1D7EC, 0x1D7F6,
   0x1E140, 0x1E2F0, 0x1E950, 0x1FBF0]

def digitValue? (character : CodePoint) : Option Nat :=
  let code := character.toNat
  (decimalZeros.find? fun first => first ≤ code && code ≤ first + 9).map
    fun first => code - first

/-- Whether a character may stand around a written integer: any blank except
the four information separators. -/
def isMargin (character : CodePoint) : Bool :=
  isBlank character && !(0x1C ≤ character.toNat && character.toNat ≤ 0x1F)

/-- The digit values of a written number; single underscores may stand between
digits. -/
def readDigits? : Text → Option (List Nat)
  | [] => none
  | [character] => (digitValue? character).map fun value => [value]
  | character :: .scalar '_' :: rest => do
      let value ← digitValue? character
      let values ← readDigits? rest
      return value :: values
  | character :: rest => do
      let value ← digitValue? character
      let values ← readDigits? rest
      return value :: values

def ofDigits (values : List Nat) : Nat :=
  values.foldl (fun number value => 10 * number + value) 0

def digitLimit : Nat := 4300

/-- Read digits as a number, unless there are too many. -/
def readNatural? (text : Text) : Option Nat :=
  (readDigits? text).bind fun values =>
    if values.length ≤ digitLimit then some (ofDigits values) else none

/-- Read an integer: margins, then an optional sign, then digits. -/
def readInteger? (text : Text) : Option Int :=
  let trimmed := text.dropWhile isMargin
  let body := (trimmed.reverse.dropWhile isMargin).reverse
  match body with
  | .scalar '+' :: digits => (readNatural? digits).map fun number => (number : Int)
  | .scalar '-' :: digits => (readNatural? digits).map fun number => -(number : Int)
  | digits => (readNatural? digits).map fun number => (number : Int)

def hexValue? (character : Char) : Option Nat :=
  if character.isDigit then some (character.toNat - '0'.toNat)
  else if 'a' ≤ character && character ≤ 'f' then some (character.toNat - 'a'.toNat + 10)
  else if 'A' ≤ character && character ≤ 'F' then some (character.toNat - 'A'.toNat + 10)
  else none

def hexNumber? (digits : List Char) : Option Nat :=
  digits.foldlM (fun number digit => (hexValue? digit).map (16 * number + ·)) 0

end Tidy.Text
