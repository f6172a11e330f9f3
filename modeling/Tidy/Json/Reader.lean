import Tidy.Text.Digit
import Tidy.Value.Basic

/-!
# Reading JSON

The usual grammar, with the numbers `NaN` and `Infinity` besides, and with the
last of several equal keys winning.  Strings are loose text, since escapes can
name surrogates.  A failure knows how much text was left, so that its line and
column can be told.
-/

namespace Tidy.Json

inductive Reason where
  | value
  | propertyName
  | colon
  | comma
  | extraData
  | unterminatedString
  | controlCharacter
  | escape
  | unicodeEscape
  | byteOrderMark
  deriving DecidableEq

def Reason.message : Reason → String
  | .value => "Expecting value"
  | .propertyName => "Expecting property name enclosed in double quotes"
  | .colon => "Expecting ':' delimiter"
  | .comma => "Expecting ',' delimiter"
  | .extraData => "Extra data"
  | .unterminatedString => "Unterminated string starting at"
  | .controlCharacter => "Invalid control character at"
  | .escape => "Invalid \\escape"
  | .unicodeEscape => "Invalid \\uXXXX escape"
  | .byteOrderMark => "Unexpected UTF-8 BOM (decode using utf-8-sig)"

inductive Failure where
  /-- The text is wrong where `remaining` characters are left. -/
  | malformed (reason : Reason) (remaining : Nat)
  /-- An integer has too many digits. -/
  | tooManyDigits (count : Nat)
  /-- Lists and objects nest too deeply; the one that does not fit any more is a
  list or an object. -/
  | nestedTooDeeply (isList : Bool)
  deriving DecidableEq

def fail {Result : Type} (reason : Reason) (text : List Char) : Except Failure Result :=
  .error (.malformed reason text.length)

def skipBlanks (text : List Char) : List Char :=
  text.dropWhile fun character =>
    character == ' ' || character == '\t' || character == '\n' || character == '\r'

/-- Read the code after `\u`, with the second half of a surrogate pair when one
follows.  The text starts at the `u`. -/
def unicodeEscape (text : List Char) : Except Failure (CodePoint × List Char) :=
  let after := text.drop 1
  match if after.length ≤ 4 then none else Text.hexNumber? (after.take 4) with
  | none => fail .unicodeEscape text
  | some code =>
      let rest := after.drop 4
      if 0xD800 ≤ code && code < 0xDC00 && 6 < rest.length && ['\\', 'u'].isPrefixOf rest then
        match Text.hexNumber? ((rest.drop 2).take 4) with
        | none => fail .unicodeEscape (rest.drop 1)
        | some low =>
            if 0xDC00 ≤ low && low < 0xE000 then
              .ok
                (CodePoint.ofNat (0x10000 + (code - 0xD800) * 0x400 + (low - 0xDC00)),
                  rest.drop 6)
            else .ok (CodePoint.ofNat code, rest)
      else .ok (CodePoint.ofNat code, rest)

def shortEscape? : Char → Option Char
  | '"' => some '"'
  | '\\' => some '\\'
  | '/' => some '/'
  | 'b' => some '\x08'
  | 'f' => some '\x0c'
  | 'n' => some '\n'
  | 'r' => some '\r'
  | 't' => some '\t'
  | _ => none

/-- Read a string from behind its opening quote, which had `opening` characters
left. -/
def stringTail (opening : Nat) : Nat → List Char → Except Failure (Text × List Char)
  | 0, _ => .error (.malformed .unterminatedString opening)
  | _ + 1, [] => .error (.malformed .unterminatedString opening)
  | _ + 1, '"' :: rest => .ok ([], rest)
  | _ + 1, ['\\'] => .error (.malformed .unterminatedString opening)
  | fuel + 1, '\\' :: letter :: rest => do
      let (point, rest) ←
        if letter == 'u' then unicodeEscape (letter :: rest)
        else
          match shortEscape? letter with
          | some character => .ok (.scalar character, rest)
          | none => fail .escape ('\\' :: letter :: rest)
      let (others, rest) ← stringTail opening fuel rest
      return (point :: others, rest)
  | fuel + 1, character :: rest => do
      if character.toNat < 0x20 then fail .controlCharacter (character :: rest)
      let (others, rest) ← stringTail opening fuel rest
      return (.scalar character :: others, rest)

def string (text : List Char) : Except Failure (Text × List Char) :=
  stringTail text.length text.length (text.drop 1)

def digits (text : List Char) : List Char × List Char :=
  (text.takeWhile Char.isDigit, text.dropWhile Char.isDigit)

/-- The digits of a whole number: a zero alone, or digits that start with
another one. -/
def wholeDigits (text : List Char) : List Char × List Char :=
  match text with
  | '0' :: rest => (['0'], rest)
  | _ => digits text

/-- The digits after a point, if digits follow one. -/
def fractionDigits (text : List Char) : List Char × List Char :=
  match text with
  | '.' :: rest => if (digits rest).1.isEmpty then ([], text) else digits rest
  | _ => ([], text)

/-- The exponent, if one follows with digits. -/
def exponent? (text : List Char) : Option (Int × List Char) :=
  match text with
  | mark :: rest =>
      if mark == 'e' || mark == 'E' then
        let (negative, unsigned) :=
          match rest with
          | '-' :: unsigned => (true, unsigned)
          | '+' :: unsigned => (false, unsigned)
          | unsigned => (false, unsigned)
        let (found, after) := digits unsigned
        let size : Int := Text.ofDigits ((Text.ofList found).filterMap Text.digitValue?)
        if found.isEmpty then none else some (if negative then -size else size, after)
      else none
  | [] => none

def number (text : List Char) : Except Failure (Value × List Char) :=
  let (negative, unsigned) :=
    match text with
    | '-' :: unsigned => (true, unsigned)
    | unsigned => (false, unsigned)
  let (whole, afterWhole) := wholeDigits unsigned
  if whole.isEmpty then fail .value text
  else
    let (fraction, afterFraction) := fractionDigits afterWhole
    let decimal := Text.ofDigits ((Text.ofList (whole ++ fraction)).filterMap Text.digitValue?)
    match exponent? afterFraction with
    | some (exponent, rest) =>
        .ok (.double (Double.ofDecimal negative decimal (exponent - fraction.length)), rest)
    | none =>
        if !fraction.isEmpty then
          .ok (.double (Double.ofDecimal negative decimal (-fraction.length)), afterFraction)
        else if Text.digitLimit < whole.length then .error (.tooManyDigits whole.length)
        else .ok (.integer (if negative then -(decimal : Int) else decimal), afterFraction)

def words : List (List Char × Value) :=
  [(['n', 'u', 'l', 'l'], .null), (['t', 'r', 'u', 'e'], .bool true),
   (['f', 'a', 'l', 's', 'e'], .bool false), (['N', 'a', 'N'], .double .nan),
   (['I', 'n', 'f', 'i', 'n', 'i', 't', 'y'], .double (.infinite false)),
   (['-', 'I', 'n', 'f', 'i', 'n', 'i', 't', 'y'], .double (.infinite true))]

mutual

/-- Read a value in which lists and objects may nest as deeply as there is room;
`fuel` bounds the number of steps. -/
def value : Nat → Nat → List Char → Except Failure (Value × List Char)
  | 0, _, text => fail .value text
  | fuel + 1, room, text =>
      match text with
      | '"' :: _ => (string text).map fun (read, rest) => (.text read, rest)
      | '\x7b' :: rest =>
          if room == 0 then .error (.nestedTooDeeply false)
          else
            match skipBlanks rest with
            | '\x7d' :: after => .ok (.table [], after)
            | inner =>
                (members fuel (room - 1) [] inner).map fun (read, rest) => (.table read, rest)
      | '[' :: rest =>
          if room == 0 then .error (.nestedTooDeeply true)
          else
            match skipBlanks rest with
            | ']' :: after => .ok (.list [], after)
            | inner => (elements fuel (room - 1) inner).map fun (read, rest) => (.list read, rest)
      | _ =>
          match words.find? fun (word, _) => word.isPrefixOf text with
          | some (word, read) => .ok (read, text.drop word.length)
          | none => number text

/-- Read the elements of a list up to its closing bracket. -/
def elements : Nat → Nat → List Char → Except Failure (List Value × List Char)
  | 0, _, text => fail .value text
  | fuel + 1, room, text => do
      let (first, rest) ← value fuel room text
      match skipBlanks rest with
      | ']' :: after => return ([first], after)
      | ',' :: after => do
          let (others, rest) ← elements fuel room (skipBlanks after)
          return (first :: others, rest)
      | other => fail .comma other

/-- Read the members of an object up to its closing brace, after those already
read. -/
def members :
    Nat → Nat → List (Text × Value) → List Char →
      Except Failure (List (Text × Value) × List Char)
  | 0, _, _, text => fail .propertyName text
  | fuel + 1, room, before, text =>
      match text with
      | '"' :: _ => do
          let (key, rest) ← string text
          match skipBlanks rest with
          | ':' :: after => do
              let (read, rest) ← value fuel room (skipBlanks after)
              let entries := Value.setEntry key read before
              match skipBlanks rest with
              | '\x7d' :: after => return (entries, after)
              | ',' :: after => members fuel room entries (skipBlanks after)
              | other => fail .comma other
          | other => fail .colon other
      | _ => fail .propertyName text

end

def nestingLimit : Nat := 990

def parse (text : List Char) : Except Failure Value := do
  if ['\ufeff'].isPrefixOf text then fail .byteOrderMark text
  let (read, rest) ← value (2 * text.length + 2) nestingLimit (skipBlanks text)
  match skipBlanks rest with
  | [] => return read
  | other => fail .extraData other

end Tidy.Json
