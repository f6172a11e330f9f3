import Tidy.Field.Declaration
import Tidy.Log

/-!
# Aligned blocks

The lines between the braces of a model are laid out in columns: name, type,
location tag, other tags.  A line that is no field declaration stays where it
is and only loses the blanks at its end.
-/

namespace Tidy

inductive Entry where
  | declared (field : Field)
  | verbatim (line : Text)
  deriving DecidableEq

namespace Entry

def ofLine (options : Options) (line : Text) : Entry :=
  match Field.parse options line with
  | .ok field => .declared field
  | .error _ => .verbatim line

def field? : Entry → Option Field
  | .declared field => some field
  | .verbatim _ => none

/-- The record about a line that is kept as it is; empty lines go without. -/
def note? (options : Options) (line : Text) : Option Log.Record :=
  match Field.parse options line with
  | .ok _ => none
  | .error malformed =>
      if line.isEmptyLine then none
      else
        some
          { level := .debug
            logger := "smartfmt.formatting.fields"
            message := "Keeping line verbatim: " ++ malformed.message }

end Entry

structure Block where
  entries : List Entry
  nameWidth : Nat
  typeWidth : Nat
  tagWidth : Nat
  indent : Text
  deriving DecidableEq

namespace Block

def widest (texts : List Text) : Nat :=
  (texts.map List.length).foldr max 0

/-- Measure the columns.  Annotations of the block do not widen the name and
type columns; only the chosen location tags widen theirs. -/
def ofEntries (options : Options) (entries : List Entry) : Block :=
  let fields := entries.filterMap Entry.field?
  let columns := fields.filter fun field => !field.isAnnotation
  { entries := entries
    nameWidth := widest (columns.map Field.name)
    typeWidth := widest (columns.map Field.columnType)
    tagWidth :=
      widest ((fields.map Field.location).filter (Text.startsWithAny options.widthPrefixes))
    indent := options.indent }

def ofLines (options : Options) (lines : List Text) : Block :=
  ofEntries options (lines.map (Entry.ofLine options))

/-- Read the lines of a block, unless the indent of its fields cannot be written
out. -/
def checked (options : Options) (lines : List Text) : Except Fault Block :=
  match options.indentFault? with
  | some fault => .error fault
  | none => .ok (ofLines options lines)

/-- The columns of a field, before the blanks at the end are dropped. -/
def layOut (block : Block) (field : Field) : Text :=
  block.indent ++ field.name.padRight block.nameWidth ++ ([' '] : Text) ++
    field.columnType.padRight block.typeWidth ++ ([' '] : Text) ++
    field.location.padRight block.tagWidth ++ ([' '] : Text) ++
    ([' '] : Text).intercalate field.tags

def renderEntry (block : Block) : Entry → Text
  | .verbatim line => line.stripRight
  | .declared field => (block.layOut field).stripRight

def render (block : Block) : List Text :=
  block.entries.map block.renderEntry

/-- Align the lines between the braces of a model. -/
def align (options : Options) (lines : List Text) : List Text :=
  (ofLines options lines).render

def notes (options : Options) (lines : List Text) : List Log.Record :=
  lines.filterMap (Entry.note? options)

end Block

end Tidy
