import Tidy.Import.Statement

/-!
# Runs of imports

Consecutive import statements form a run.  `statements` cuts lines into
statements, `runLength` tells how many lines from the head of a document form
one run, and `sortLines` writes a run in order.
-/

namespace Tidy.Import

/-- How many lines after the first one belong to the statement that starts on
it: none for a statement on one line, else those up to the next closing brace.
There is no answer when that brace never comes. -/
def extraLines? (line : Text) (following : List Text) : Option Nat :=
  if opensLines line then
    let inner := following.takeWhile fun other => !other.contains '\x7d'
    if inner.length < following.length then some (inner.length + 1) else none
  else some 0

/-- Cut lines into statements; a statement that never ends takes all that is
left. -/
def statements : List Text → List Statement
  | [] => []
  | line :: following =>
      let extra := (extraLines? line following).getD following.length
      ⟨line, following.take extra⟩ :: statements (following.drop extra)
  termination_by lines => lines.length
  decreasing_by simp only [List.length_drop, List.length_cons]; omega

/-- How many lines from the head form one run of finished statements. -/
def runLength : List Text → Nat
  | [] => 0
  | line :: following =>
      if isStart line then
        match extraLines? line following with
        | none => 0
        | some extra => extra + 1 + runLength (following.drop extra)
      else 0
  termination_by lines => lines.length
  decreasing_by simp only [List.length_drop, List.length_cons]; omega

/-- Order statements by the length of their specifier lists, the longest first;
equal ones keep their order. -/
def longestFirst (run : List Statement) : List Statement :=
  run.mergeSort fun left right =>
    decide (right.specifierList.length ≤ left.specifierList.length)

/-- Normalize the statements of a run and order them by class and then by the
length of their specifier lists. -/
def sort (run : List Statement) : List Statement :=
  let normalized := run.map Statement.normalized
  Group.all.flatMap fun group =>
    longestFirst (normalized.filter fun statement => statement.group == group)

def sortLines (lines : List Text) : List Text :=
  (sort (statements lines)).flatMap Statement.lines

def notes (lines : List Text) : List Log.Record :=
  (statements lines).filterMap Statement.note?

end Tidy.Import
