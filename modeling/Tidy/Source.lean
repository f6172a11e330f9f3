import Tidy.Index
import Tidy.Line

/-!
# Source texts and edits

A source text is its lines with their own endings, so that a region can be
replaced line by line without touching how its lines end.  An edit replaces the
characters between two offsets.  Several edits are applied from the back, so that
the offsets of those still to come stay valid.
-/

namespace Tidy

/-- Replace the characters from `start` up to `stop` by `text`. -/
structure Edit where
  start : Int
  stop : Int
  text : Text
  deriving DecidableEq

namespace Edit

def apply (edit : Edit) (text : Text) : Text :=
  text.take (Index.cut text.length edit.start) ++ edit.text ++
    text.drop (Index.cut text.length edit.stop)

/-- The text with all edits made, the last start first; edits with the same
start are made in the order given. -/
def applyAll (edits : List Edit) (text : Text) : Text :=
  (edits.mergeSort fun left right => decide (right.start ≤ left.start)).foldl
    (fun current edit => edit.apply current) text

end Edit

structure Source where
  lines : List Line
  /-- The ending between lines that a region gains. -/
  newline : Ending

namespace Source

/-- Cut a text at its line feeds.  Gained lines end with carriage return and
line feed as soon as one line of the text does. -/
def ofText (text : Text) : Source :=
  let lines := Line.ofFeeds text
  { lines := lines
    newline :=
      if lines.any fun line => line.ending == .returnFeed then .returnFeed else .feed }

def texts (source : Source) : List Text :=
  source.lines.map Line.text

def endings (source : Source) : List Ending :=
  source.lines.map Line.ending

def offsets (source : Source) : List Nat :=
  Line.offsets 0 source.lines

/-- The offsets from the start of one line to the end of another, its ending
excluded. -/
def span (source : Source) (first last : Int) : Except Index.Miss (Nat × Nat) := do
  let start ← Index.get source.offsets first
  let lastStart ← Index.get source.offsets last
  let text ← Index.get source.texts last
  return (start, lastStart + text.length)

/-- The characters between line `index` of the new lines and the next one: the
ending that stood there, or the general one beyond the region. -/
def separator (source : Source) (last index : Int) : Text :=
  if index < last then
    match Index.get source.endings index with
    | .ok ending => ending.text
    | .error _ => []
  else source.newline.text

/-- New lines as one text, with the endings of the lines they replace. -/
def weave (source : Source) (last : Int) : Int → List Text → Text
  | _, [] => []
  | _, [line] => line
  | index, line :: rest =>
      line ++ source.separator last index ++ source.weave last (index + 1) rest

/-- The edit that replaces a range of lines; no edit when nothing changes. -/
def replacement (source : Source) (first last : Int) (newLines : List Text) :
    Except Index.Miss (Option Edit) :=
  if newLines == Index.slice source.texts first (last + 1) then .ok none
  else do
    let (start, stop) ← source.span first last
    return some ⟨start, stop, source.weave last first newLines⟩

end Source

end Tidy
