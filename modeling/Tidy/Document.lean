import Tidy.Fault
import Tidy.Language
import Tidy.Source

/-!
# Open documents

A document is its text with a resource name, a version and a language, and with a
table of its lines that every new text renews.  Editors speak of positions, a line
and a column counted in UTF-16 code units; the formatter speaks of offsets.  This
module converts between the two by the table.  Surrogates without a pair have no
code units, so a conversion that comes upon one fails.
-/

namespace Tidy

/-! ## Code units -/

namespace Text

def unitsOf (character : Char) : Nat :=
  if character.toNat < 0x10000 then 1 else 2

/-- The number of code units of a text that stands at a position of some text. -/
def unitsFrom (position : Nat) : Text → Except Fault Nat
  | [] => .ok 0
  | .scalar character :: rest => do
      return unitsOf character + (← unitsFrom (position + 1) rest)
  | .surrogate index :: _ => .error (.unencodable index position)

def units (text : Text) : Except Fault Nat :=
  unitsFrom 0 text

/-- How many leading characters it takes to reach the given number of code units; a
character that is only half reached counts in full.  The units of each character are
counted on its own. -/
def charactersFor : Nat → Text → Except Fault Nat
  | _, [] => .ok 0
  | 0, _ :: _ => .ok 0
  | target + 1, character :: rest => do
      let reached ← units [character]
      return (← charactersFor (target + 1 - reached) rest) + 1

end Text

/-! ## Positions -/

/-- A position: line and column, both from zero. -/
structure Position where
  line : Nat
  character : Nat
  deriving DecidableEq

/-- The position of signed coordinates; negative ones count as zero. -/
def Position.clamped (line character : Int) : Position :=
  ⟨line.toNat, character.toNat⟩

structure Range where
  start : Position
  stop : Position
  deriving DecidableEq

structure TextEdit where
  range : Range
  text : Text
  deriving DecidableEq

/-- A change that an editor reports: new text for a range, or for everything. -/
structure Change where
  text : Text
  range : Option Range := none
  deriving DecidableEq

/-! ## Documents -/

structure DocumentItem where
  uri : String
  languageId : Option Text := none
  version : Int
  text : Text
  deriving DecidableEq

/-- An open document with its table: the characters of each line without the break
at its end, and where each line starts. -/
structure Document extends DocumentItem where
  lines : List Text
  lineOffsets : List Nat
  deriving DecidableEq

namespace Document

/-- The document with its table made from its text. -/
def ofItem (item : DocumentItem) : Document :=
  let cut := Line.ofBreaks item.text
  { item with lines := cut.map Line.text, lineOffsets := Line.offsets 0 cut }

/-- The document with new text, for which the table is made again, and a new
version. -/
def update (document : Document) (text : Text) (version : Int) : Document :=
  ofItem { document.toDocumentItem with text := text, version := version }

def language (document : Document) : Language :=
  Language.detect document.languageId document.uri

def entry {Item : Type} (table : List Item) (index : Int) : Except Fault Item :=
  (Index.get table index).mapError Fault.noItem

/-- The offset of a position; a line past the end means the last one, a column past
the end of a line means its end. -/
def offsetAt (document : Document) (position : Position) : Except Fault Nat := do
  let index := min (position.line : Int) (document.lines.length - 1)
  let start ← entry document.lineOffsets index
  let line ← entry document.lines index
  return start + (← Text.charactersFor position.character line)

/-- The position of an offset; offsets outside the text mean its ends, and an offset
inside a line break means the end of the line.  The line is the last one that starts
no later, for lines that start one after another. -/
def positionAt (document : Document) (offset : Int) : Except Fault Position := do
  let offset := min offset.toNat document.text.length
  let started := (document.lineOffsets.takeWhile fun start => decide (start ≤ offset)).length
  let index := (started : Int) - 1
  let start ← entry document.lineOffsets index
  let line ← entry document.lines index
  let before := ((document.text.take offset).drop start).take line.length
  return ⟨index.toNat, ← Text.units before⟩

def rangeAt (document : Document) (start stop : Int) : Except Fault Range := do
  return ⟨← document.positionAt start, ← document.positionAt stop⟩

def textEdit (document : Document) (edit : Edit) : Except Fault TextEdit := do
  return ⟨← document.rangeAt edit.start edit.stop, edit.text⟩

def changed (document : Document) (change : Change) : Except Fault Text :=
  match change.range with
  | none => .ok change.text
  | some range => do
      let start ← document.offsetAt range.start
      let stop ← document.offsetAt range.stop
      return document.text.take start ++ change.text ++ document.text.drop stop

end Document

end Tidy
