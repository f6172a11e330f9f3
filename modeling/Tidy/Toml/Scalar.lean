import Tidy.Text.Digit
import Tidy.Toml.Reason
import Tidy.Value.Basic

/-!
# Numbers, dates and times

Each reader answers with nothing when its kind of value does not start here; it
takes the longest beginning of the text that fits.
-/

namespace Tidy.Toml

/-- The digits at the head of a text, with single underscores between them, and
the rest; the first digit has been read already. -/
def moreDigits (isDigit : Char → Bool) : List Char → List Char × List Char
  | [] => ([], [])
  | '_' :: character :: rest =>
      if isDigit character then
        let (digits, after) := moreDigits isDigit rest
        (character :: digits, after)
      else ([], '_' :: character :: rest)
  | character :: rest =>
      if isDigit character then
        let (digits, after) := moreDigits isDigit rest
        (character :: digits, after)
      else ([], character :: rest)

def digitRun? (isDigit : Char → Bool) : List Char → Option (List Char × List Char)
  | [] => none
  | character :: rest =>
      if isDigit character then
        let (digits, after) := moreDigits isDigit rest
        some (character :: digits, after)
      else none

def isDigitBelow (base : Nat) (character : Char) : Bool :=
  match Text.hexValue? character with
  | none => false
  | some value => value < base

def numberIn (base : Nat) (digits : List Char) : Nat :=
  digits.foldl (fun number digit => base * number + (Text.hexValue? digit).getD 0) 0

/-- An integer in base sixteen, eight or two. -/
def prefixed? (text : List Char) : Option (Value × List Char) :=
  let inBase (base : Nat) (rest : List Char) : Option (Value × List Char) :=
    (digitRun? (isDigitBelow base) rest).map fun (digits, after) =>
      (.integer (numberIn base digits), after)
  match text with
  | '0' :: 'x' :: rest => inBase 16 rest
  | '0' :: 'o' :: rest => inBase 8 rest
  | '0' :: 'b' :: rest => inBase 2 rest
  | _ => none

def sign (text : List Char) : Bool × List Char :=
  match text with
  | '-' :: rest => (true, rest)
  | '+' :: rest => (false, rest)
  | _ => (false, text)

/-- The digits of the whole part: a zero alone, or digits that start with
another one. -/
def wholeRun? (text : List Char) : Option (List Char × List Char) :=
  match text with
  | '0' :: rest => some (['0'], rest)
  | _ => digitRun? Char.isDigit text

/-- The digits behind a point, if digits follow one. -/
def fractionRun? (text : List Char) : Option (List Char × List Char) :=
  match text with
  | '.' :: rest => digitRun? Char.isDigit rest
  | _ => none

/-- The exponent, if one follows with digits. -/
def exponentRun? (text : List Char) : Option (Int × List Char) :=
  match text with
  | mark :: rest =>
      if mark == 'e' || mark == 'E' then
        let (negative, unsigned) := sign rest
        (digitRun? Char.isDigit unsigned).map fun (digits, after) =>
          let size : Int := numberIn 10 digits
          (if negative then -size else size, after)
      else none
  | [] => none

def decimal? (text : List Char) : Option (Except Failure (Value × List Char)) :=
  let (negative, unsigned) := sign text
  match wholeRun? unsigned with
  | none => none
  | some (whole, afterWhole) =>
      let (fraction, afterFraction) := (fractionRun? afterWhole).getD ([], afterWhole)
      let (exponent, rest) :=
        match exponentRun? afterFraction with
        | none => (none, afterFraction)
        | some (exponent, rest) => (some exponent, rest)
      let number := numberIn 10 (whole ++ fraction)
      if fraction.isEmpty && exponent.isNone then
        if Text.digitLimit < whole.length then some (.error (.tooManyDigits whole.length))
        else some (.ok (.integer (if negative then -(number : Int) else number), rest))
      else
        let power := exponent.getD 0 - fraction.length
        some (.ok (.double (Double.ofDecimal negative number power), rest))

def specialNumbers : List (List Char × Double) :=
  [(['i', 'n', 'f'], .infinite false), (['n', 'a', 'n'], .nan),
   (['-', 'i', 'n', 'f'], .infinite true), (['+', 'i', 'n', 'f'], .infinite false),
   (['-', 'n', 'a', 'n'], .nan), (['+', 'n', 'a', 'n'], .nan)]

/-- A fixed number of digits as a number within bounds, and the rest. -/
def fixedDigits? (count low high : Nat) (text : List Char) : Option (Nat × List Char) :=
  let digits := text.take count
  if digits.length == count && digits.all Char.isDigit then
    let number := numberIn 10 digits
    if low ≤ number && number ≤ high then some (number, text.drop count) else none
  else none

def character? (expected : Char) (text : List Char) : Option (List Char) :=
  match text with
  | character :: rest => if character == expected then some rest else none
  | [] => none

/-- The microseconds of a fraction of a second; digits past the sixth do not
count. -/
def microseconds (digits : List Char) : Nat :=
  let kept := digits.take 6
  numberIn 10 (kept ++ List.replicate (6 - kept.length) '0')

def time? (text : List Char) : Option (Time × List Char) := do
  let (hour, rest) ← fixedDigits? 2 0 23 text
  let (minute, rest) ← fixedDigits? 2 0 59 (← character? ':' rest)
  let (second, rest) ← fixedDigits? 2 0 59 (← character? ':' rest)
  match rest with
  | '.' :: after =>
      let digits := after.takeWhile Char.isDigit
      if digits.isEmpty then return (⟨hour, minute, second, 0⟩, rest)
      else return (⟨hour, minute, second, microseconds digits⟩, after.dropWhile Char.isDigit)
  | _ => return (⟨hour, minute, second, 0⟩, rest)

/-- A day of the calendar by its looks; it need not exist. -/
def date? (text : List Char) : Option (Date × List Char) := do
  let (year, rest) ← fixedDigits? 4 0 9999 text
  let (month, rest) ← fixedDigits? 2 1 12 (← character? '-' rest)
  let (day, rest) ← fixedDigits? 2 1 31 (← character? '-' rest)
  return (⟨year, month, day⟩, rest)

/-- An offset from universal time in minutes. -/
def offset? (text : List Char) : Option (Int × List Char) :=
  match text with
  | 'Z' :: rest => some (0, rest)
  | 'z' :: rest => some (0, rest)
  | mark :: rest =>
      if mark == '+' || mark == '-' then do
        let (hours, rest) ← fixedDigits? 2 0 23 rest
        let (minutes, rest) ← fixedDigits? 2 0 59 (← character? ':' rest)
        let size : Int := hours * 60 + minutes
        return (if mark == '-' then -size else size, rest)
      else none
  | [] => none

/-- The time behind a date, after a letter or a space. -/
def timeAfterDate? (text : List Char) : Option (Time × List Char) :=
  match text with
  | mark :: rest => if mark == 'T' || mark == 't' || mark == ' ' then time? rest else none
  | [] => none

/-- A date, with a time and an offset when they follow. -/
def dateOrMoment? (text : List Char) : Option (Except Failure (Value × List Char)) :=
  (date? text).map fun (date, afterDate) =>
    if !date.isValid then fail .date text
    else
      match timeAfterDate? afterDate with
      | none => .ok (.date date, afterDate)
      | some (time, afterTime) =>
          match offset? afterTime with
          | none => .ok (.moment date time none, afterTime)
          | some (minutes, rest) => .ok (.moment date time (some minutes), rest)

def scalar (text : List Char) : Except Failure (Value × List Char) :=
  match dateOrMoment? text with
  | some read => read
  | none =>
      match time? text with
      | some (time, rest) => .ok (.time time, rest)
      | none =>
          match prefixed? text with
          | some read => .ok read
          | none =>
              match decimal? text with
              | some read => read
              | none =>
                  match specialNumbers.find? fun (word, _) => word.isPrefixOf text with
                  | some (word, number) => .ok (.double number, text.drop word.length)
                  | none => fail .value text

end Tidy.Toml
