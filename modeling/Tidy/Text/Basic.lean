/-!
# Text

Text is a list of Unicode code points, so every length, offset and index counts
code points.  This module fixes which of them are blank, the trimming, squashing
and padding operations built on that class, and where one text stands inside
another.
-/

namespace Tidy

/-- A code point: a character, or a surrogate that belongs to no pair. -/
inductive CodePoint where
  | scalar (character : Char)
  /-- The surrogates are numbered from the first one. -/
  | surrogate (index : Fin 0x800)
  deriving DecidableEq

instance : Coe Char CodePoint := ⟨CodePoint.scalar⟩

@[simp]
def CodePoint.toNat : CodePoint → Nat
  | .scalar character => character.toNat
  | .surrogate index => 0xD800 + index.val

def CodePoint.ofNat (code : Nat) : CodePoint :=
  if bounds : 0xD800 ≤ code ∧ code < 0xE000 then .surrogate ⟨code - 0xD800, by omega⟩
  else .scalar (Char.ofNat code)

abbrev Text := List CodePoint

namespace Text

def ofList (characters : List Char) : Text :=
  characters.map CodePoint.scalar

instance : Coe String Text := ⟨fun string => ofList string.toList⟩

/-- Whether a code point separates words: the control characters from tab to
carriage return, the four information separators, and every space and line or
paragraph separator of Unicode.  Zero-width marks are not blank. -/
def isBlank (point : CodePoint) : Bool :=
  let code := point.toNat
  (0x09 ≤ code && code ≤ 0x0D) || (0x1C ≤ code && code ≤ 0x20) ||
    code == 0x85 || code == 0xA0 || code == 0x1680 ||
    (0x2000 ≤ code && code ≤ 0x200A) || code == 0x2028 || code == 0x2029 ||
    code == 0x202F || code == 0x205F || code == 0x3000

def stripLeft (text : Text) : Text :=
  text.dropWhile isBlank

def stripRight (text : Text) : Text :=
  (text.reverse.dropWhile isBlank).reverse

def strip (text : Text) : Text :=
  stripRight (stripLeft text)

def isEmptyLine (text : Text) : Bool :=
  text.all isBlank

def squash (text : Text) : Text :=
  text.filter fun character => !isBlank character

/-- The first word of a text that does not start with a blank. -/
def firstWord (text : Text) : Text :=
  text.takeWhile fun character => !isBlank character

/-- What follows the first word, without the blanks between. -/
def afterWord (text : Text) : Text :=
  stripLeft (text.dropWhile fun character => !isBlank character)

def padRight (width : Nat) (text : Text) : Text :=
  text ++ List.replicate (width - text.length) (CodePoint.scalar ' ')

/-! ## Searching -/

def startsWithAny (beginnings : List Text) (text : Text) : Bool :=
  beginnings.any fun beginning => beginning.isPrefixOf text

def includes (sought : Text) : Text → Bool
  | [] => sought.isEmpty
  | character :: rest =>
      sought.isPrefixOf (character :: rest) || includes sought rest

def endsWith (character : CodePoint) (text : Text) : Bool :=
  text.getLast? == some character

/-- The part from the first opening brace on; empty when there is none. -/
def fromBrace (text : Text) : Text :=
  text.dropWhile fun character => character != '\x7b'

/-- Whether an opening brace is followed by a closing one. -/
def closesBrace (text : Text) : Bool :=
  (fromBrace text).contains '\x7d'

/-- Whether an opening brace is left without a closing one after it. -/
def leavesBraceOpen (text : Text) : Bool :=
  !(fromBrace text).isEmpty && !closesBrace text

end Text

end Tidy
