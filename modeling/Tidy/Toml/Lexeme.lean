import Tidy.Text.Digit
import Tidy.Toml.Reason

/-!
# Blanks, comments, strings and keys

The parts of a TOML document that do not nest.
-/

namespace Tidy.Toml

def isSpace (character : Char) : Bool :=
  character == ' ' || character == '\t'

def isSpaceOrFeed (character : Char) : Bool :=
  isSpace character || character == '\n'

/-- Whether a character may not stand in a comment or a one-line string: a
control character other than tab. -/
def isControl (character : Char) : Bool :=
  (character.toNat < 0x20 || character.toNat == 0x7F) && character != '\t'

/-- Whether a character may not stand in a multi-line string. -/
def isControlButFeed (character : Char) : Bool :=
  isControl character && character != '\n'

def skipSpaces (text : List Char) : List Char :=
  text.dropWhile isSpace

def skipSpacesAndFeeds (text : List Char) : List Char :=
  text.dropWhile isSpaceOrFeed

/-- The text before the first place where the sought text stands, and the text
from there on. -/
def cutBefore? (sought : List Char) : List Char → Option (List Char × List Char)
  | [] => none
  | character :: rest =>
      if sought.isPrefixOf (character :: rest) then some ([], character :: rest)
      else (cutBefore? sought rest).map fun (before, after) => (character :: before, after)

/-- Refuse a stretch of text that holds a forbidden character. -/
def refuse (isForbidden : Char → Bool) (stretch after : List Char) : Except Failure Unit :=
  match stretch.dropWhile fun character => !isForbidden character with
  | [] => .ok ()
  | character :: rest =>
      .error (.malformed (.invalidCharacter character) (rest.length + 1 + after.length))

def skipComment (text : List Char) : Except Failure (List Char) :=
  match text with
  | '#' :: rest => do
      let (comment, after) := (cutBefore? ['\n'] rest).getD (rest, [])
      refuse isControl comment after
      return after
  | _ => .ok text

/-- Drop blanks, line feeds and comments; `fuel` bounds the number of steps. -/
def skipCommentsFrom : Nat → List Char → Except Failure (List Char)
  | 0, text => .ok text
  | fuel + 1, text => do
      let rest ← skipComment (skipSpacesAndFeeds text)
      if rest.length < text.length then skipCommentsFrom fuel rest else return rest

def skipComments (text : List Char) : Except Failure (List Char) :=
  skipCommentsFrom (text.length + 1) text

/-- Read a literal string from behind its opening delimiter. -/
def literalTail (delimiter : List Char) (isForbidden : Char → Bool) (text : List Char) :
    Except Failure (List Char × List Char) :=
  match cutBefore? delimiter text with
  | none => .error (.malformed (.missing delimiter) 0)
  | some (content, after) => do
      refuse isForbidden content after
      return (content, after.drop delimiter.length)

def hexCharacter (count : Nat) (text : List Char) : Except Failure (List Char × List Char) :=
  match if text.length < count then none else Text.hexNumber? (text.take count) with
  | none => fail .hexadecimal text
  | some code =>
      let rest := text.drop count
      if code < 0xD800 || (0xE000 ≤ code && code < 0x110000) then
        .ok ([Char.ofNat code], rest)
      else fail .notScalar rest

def shortEscape? : Char → Option Char
  | 'b' => some '\x08'
  | 't' => some '\t'
  | 'n' => some '\n'
  | 'f' => some '\x0c'
  | 'r' => some '\r'
  | '"' => some '"'
  | '\\' => some '\\'
  | _ => none

/-- Drop the end of a line after a backslash, and the blanks of the next ones. -/
def foldLine (letter : Char) (text : List Char) : Except Failure (List Char × List Char) :=
  if letter == '\n' then .ok ([], skipSpacesAndFeeds text)
  else
    match skipSpaces text with
    | [] => .ok ([], [])
    | '\n' :: rest => .ok ([], skipSpacesAndFeeds rest)
    | other => fail .escape other

/-- Read an escape from behind its backslash. -/
def escape (multiline : Bool) (text : List Char) : Except Failure (List Char × List Char) :=
  match text with
  | [] => fail .escape []
  | letter :: rest =>
      if multiline && isSpaceOrFeed letter then foldLine letter rest
      else if letter == 'u' then hexCharacter 4 rest
      else if letter == 'U' then hexCharacter 8 rest
      else
        match shortEscape? letter with
        | some character => .ok ([character], rest)
        | none => fail .escape rest

/-- Read a basic string from behind its opening delimiter up to and past its
closing one; `fuel` bounds the number of steps. -/
def basicTail (multiline : Bool) : Nat → List Char → Except Failure (List Char × List Char)
  | 0, text => fail .unterminatedString text
  | _ + 1, [] => fail .unterminatedString []
  | fuel + 1, character :: rest => do
      if character == '"' && (!multiline || ['"', '"'].isPrefixOf rest) then
        return ([], if multiline then rest.drop 2 else rest)
      if character == '\\' then
        let (read, rest) ← escape multiline rest
        let (others, rest) ← basicTail multiline fuel rest
        return (read ++ others, rest)
      if (if multiline then isControlButFeed character else isControl character) then
        fail (.illegalCharacter character) (character :: rest)
      let (others, rest) ← basicTail multiline fuel rest
      return (character :: others, rest)

def basicString (text : List Char) : Except Failure (List Char × List Char) :=
  basicTail false text.length (text.drop 1)

def literalString (text : List Char) : Except Failure (List Char × List Char) :=
  literalTail ['\''] isControl (text.drop 1)

/-- Up to two more quotes before the closing delimiter belong to the string. -/
def extraQuotes (quote : Char) (read text : List Char) : List Char × List Char :=
  let extra := min 2 (text.takeWhile fun character => character == quote).length
  (read ++ List.replicate extra quote, text.drop extra)

/-- Read a string between three quotes; a line feed at its beginning does not
belong to it. -/
def multilineString (quote : Char) (text : List Char) : Except Failure (List Char × List Char) := do
  let opened := text.drop 3
  let content := if ['\n'].isPrefixOf opened then opened.drop 1 else opened
  let (read, rest) ←
    if quote == '"' then basicTail true (content.length + 1) content
    else literalTail [quote, quote, quote] isControlButFeed content
  return extraQuotes quote read rest

/-- Read a string of any kind, if one starts here. -/
def string? (text : List Char) : Option (Except Failure (List Char × List Char)) :=
  match text with
  | '"' :: '"' :: '"' :: _ => some (multilineString '"' text)
  | '"' :: _ => some (basicString text)
  | '\'' :: '\'' :: '\'' :: _ => some (multilineString '\'' text)
  | '\'' :: _ => some (literalString text)
  | _ => none

def isBareKey (character : Char) : Bool :=
  character.isAlphanum || character == '-' || character == '_'

def startsKey (character : Char) : Bool :=
  isBareKey character || character == '"' || character == '\''

def keyPart (text : List Char) : Except Failure (Text × List Char) :=
  match text with
  | '"' :: _ => (basicString text).map fun (read, rest) => (.ofList read, rest)
  | '\'' :: _ => (literalString text).map fun (read, rest) => (.ofList read, rest)
  | _ =>
      let bare := text.takeWhile isBareKey
      if bare.isEmpty then fail .keyPart text
      else .ok (.ofList bare, text.dropWhile isBareKey)

/-- Read a key of parts with dots between them; `fuel` bounds their number. -/
def keyFrom : Nat → List Char → Except Failure (Key × List Char)
  | 0, text => fail .keyPart text
  | fuel + 1, text => do
      let (part, rest) ← keyPart text
      match skipSpaces rest with
      | '.' :: after => do
          let (others, rest) ← keyFrom fuel (skipSpaces after)
          return (part :: others, rest)
      | other => return ([part], other)

def key (text : List Char) : Except Failure (Key × List Char) :=
  keyFrom (text.length + 1) text

end Tidy.Toml
