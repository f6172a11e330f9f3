import Tidy.Text.Basic

/-!
# Quoted strings and tags

A quoted string starts at a single or double quote and runs to the next such
quote; a backslash inside it escapes the character that follows.  The state is
carried from character to character.

The part of a field line after name and type is cut into tags.  A tag starts at
an at sign outside quoted strings; what stands before the first one is dropped.
Inside a tag every run of blanks outside quoted strings becomes one space, and
the blanks at its end vanish.  An at sign with nothing behind it is no tag.
-/

namespace Tidy

/-- Whether the next character stands inside a quoted string. -/
inductive Quoting where
  | outside
  | inside (quote : CodePoint)
  | escaped (quote : CodePoint)
  deriving DecidableEq

namespace Quoting

/-- Whether a character opens a quoted string. -/
def isQuote (character : CodePoint) : Bool :=
  character == '"' || character == '\''

def next : Quoting → CodePoint → Quoting
  | .outside, character =>
      if isQuote character then .inside character else .outside
  | .inside quote, character =>
      if character == '\\' then .escaped quote
      else if character == quote then .outside
      else .inside quote
  | .escaped quote, _ => .inside quote

def isOpen : Quoting → Bool
  | .outside => false
  | .inside _ => true
  | .escaped _ => true

end Quoting

structure Mark where
  character : CodePoint
  isQuoted : Bool
  deriving DecidableEq

namespace Mark

def ofText (state : Quoting) : Text → List Mark
  | [] => []
  | character :: rest =>
      ⟨character, state.isOpen⟩ :: ofText (state.next character) rest

abbrev tagSign : CodePoint := '@'

def startsTag (mark : Mark) : Bool :=
  !mark.isQuoted && mark.character == tagSign

def isGap (mark : Mark) : Bool :=
  !mark.isQuoted && Text.isBlank mark.character

end Mark

namespace Tags

/-- Cut at the marks that start a tag: what stands before the first one, and
what follows each of them. -/
def pieces : List Mark → List Mark × List (List Mark)
  | [] => ([], [])
  | mark :: rest =>
      let (before, after) := pieces rest
      if mark.startsTag then ([], before :: after) else (mark :: before, after)

/-- Collapse the gaps; `gap` tells whether one has just been passed. -/
def collapse (gap : Bool) : List Mark → Text
  | [] => []
  | mark :: rest =>
      if mark.isGap then collapse true rest
      else if gap then ' ' :: mark.character :: collapse false rest
      else mark.character :: collapse false rest

/-- The tags of the part of a line after name and type. -/
def scan (remainder : Text) : List Text :=
  ((pieces (Mark.ofText .outside remainder)).2.map
    fun piece => Mark.tagSign :: collapse false piece).filter fun tag => tag != [Mark.tagSign]

end Tags

end Tidy
