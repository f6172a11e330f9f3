import Tidy.Proofs.Runs

/-!
# Where the statements of a run end

A run is searched in the whole document, where the lines behind it are at hand, and it is
cut into statements on its own.  Both come upon the same ends: the walk through the document
from statement to statement stops at the lines where the cut of the run ends its statements,
and no statement of a run goes on past the lines that were handed over.
-/

namespace Tidy.Import

/-! ## The walk through a document -/

/-- The line on which the statement on a line of a document ends: the line itself, or the
first later one with a closing brace when it leaves a brace open. -/
def statementEnd? (document : List Text) (first : Nat) : Option Nat :=
  if opensLines (document.getD first []) then
    ((document.drop (first + 1)).findIdx? fun line => line.contains '\x7d').map (first + 1 + ·)
  else some first

def runEnd? (document : List Text) (start : Nat) : Option Nat :=
  match runLength (document.drop start) with
  | 0 => none
  | extra + 1 => some (start + extra)

theorem le_of_statementEnd?
    {document : List Text} {first last : Nat}
    (isEnd : statementEnd? document first = some last) :
    first ≤ last := by
  unfold statementEnd? at isEnd
  split at isEnd
  · obtain ⟨extra, _, rfl⟩ := Option.map_eq_some_iff.mp isEnd
    omega
  · cases isEnd
    exact Nat.le_refl _

/-- The ends of the statements that follow each other from a line of a document on, up to a
line that starts no import or starts one that never ends. -/
def walk (document : List Text) (index : Nat) : List Nat :=
  if _ : index < document.length ∧ isStart (document.getD index []) = true then
    match isEnd : statementEnd? document index with
    | none => []
    | some last => last :: walk document (last + 1)
  else []
  termination_by document.length - index
  decreasing_by
    have := le_of_statementEnd? isEnd
    omega

def endLines (start : Nat) : List Statement → List Nat
  | [] => []
  | statement :: rest =>
      (start + statement.rest.length) :: endLines (start + statement.lines.length) rest

theorem runEnd?_eq_some_iff
    (document : List Text) (start stop : Nat) :
    runEnd? document start = some stop ↔
      0 < runLength (document.drop start) ∧
        start + runLength (document.drop start) = stop + 1 := by
  unfold runEnd?
  split
  · rename_i noRun
    simp [noRun]
  · rename_i extra isRun
    rw [isRun, Option.some.injEq]
    omega

/-! ## One step of the walk -/

theorem getD_of_drop
    {document : List Text} {index : Nat} {line : Text} {following : List Text}
    (here : document.drop index = line :: following) :
    document.getD index [] = line := by
  rw [List.getD_eq_getElem?_getD, ← List.head?_drop, here]
  rfl

theorem findIdx?_noClosing
    {lines : List Text}
    (noClosing : ∀ line ∈ lines, CodePoint.scalar '\x7d' ∉ line) :
    (lines.findIdx? fun line => line.contains '\x7d') = none := by
  rw [List.findIdx?_eq_none_iff]
  intro line member
  simpa using noClosing line member

/-- In a document the end is found where the lines behind the first one show it. -/
theorem statementEnd?_of_drop
    {document : List Text} {index : Nat} {line : Text} {following : List Text}
    (here : document.drop index = line :: following) :
    statementEnd? document index = (extraLines? line following).map (index + ·) := by
  have behind : document.drop (index + 1) = following := by
    rw [← List.drop_drop, here]
    rfl
  unfold statementEnd?
  rw [getD_of_drop here, behind]
  cases opens : opensLines line with
  | false =>
      simp [extraLines?, opens]
  | true =>
      obtain ⟨starts, leavesOpen⟩ := Bool.and_eq_true_iff.mp opens
      rw [if_pos rfl]
      rcases closing_cases following with noClosing | ⟨inner, last, after, rfl, noClosing, closes⟩
      · rw [extraLines?_eq_none opens noClosing, findIdx?_noClosing noClosing]
        rfl
      · have finished : Statement.Finished ⟨line, inner ++ [last]⟩ :=
          .braced starts leavesOpen noClosing closes
        have found := extraLines?_of_finished finished after
        rw [← List.append_cons] at found
        have isClosing : last.contains '\x7d' = true := by simpa using closes
        rw [found, List.findIdx?_append, findIdx?_noClosing noClosing, List.findIdx?_cons,
          if_pos isClosing, Option.none_or, Option.map_some, Option.map_some, Option.map_some,
          List.length_append, List.length_singleton, Option.some.injEq]
        omega

/-- The walk takes a statement that starts and ends as a whole. -/
theorem walk_of_finished
    {document : List Text} {index : Nat} {statement : Statement} {after : List Text}
    (finished : statement.Finished)
    (here : document.drop index = statement.lines ++ after) :
    walk document index =
      (index + statement.rest.length) :: walk document (index + statement.rest.length + 1) := by
  rw [Statement.lines, List.cons_append] at here
  have inside : index < document.length := by
    apply Nat.lt_of_not_le
    intro beyond
    rw [List.drop_of_length_le beyond] at here
    cases here
  have isEnd : statementEnd? document index = some (index + statement.rest.length) := by
    rw [statementEnd?_of_drop here, extraLines?_of_finished finished]
    rfl
  rw [walk, dif_pos ⟨inside, by rw [getD_of_drop here]; exact finished.isStart⟩]
  split
  · rename_i noEnd
    cases noEnd.symm.trans isEnd
  · rename_i last isLast
    cases isLast.symm.trans isEnd
    rfl

theorem walk_of_ended
    {document : List Text} {index : Nat}
    (ended : runLength (document.drop index) = 0) :
    walk document index = [] := by
  rw [walk]
  split
  · rename_i inside
    obtain ⟨isInside, starts⟩ := inside
    have here := List.drop_eq_getElem_cons isInside
    rw [getD_of_drop here] at starts
    rw [here, runLength, if_pos starts] at ended
    split
    · rfl
    · rename_i last isLast
      rw [statementEnd?_of_drop here] at isLast
      obtain ⟨extra, isExtra, _⟩ := Option.map_eq_some_iff.mp isLast
      rw [isExtra] at ended
      simp at ended
  · rfl

/-! ## Whole walks -/

/-- The walk through finished statements stops at their ends. -/
theorem walk_eq_endLines
    {units : List Statement} {document after : List Text} {start : Nat}
    (finished : ∀ unit ∈ units, unit.Finished)
    (shape : document.drop start = units.flatMap Statement.lines ++ after)
    (ended : runLength after = 0) :
    walk document start = endLines start units := by
  induction units generalizing start with
  | nil =>
      rw [List.flatMap_nil, List.nil_append] at shape
      exact walk_of_ended (by rw [shape]; exact ended)
  | cons unit rest inductionHypothesis =>
      obtain ⟨first, later⟩ := List.forall_mem_cons.mp finished
      rw [List.flatMap_cons, List.append_assoc] at shape
      have shapeBehind :
          document.drop (start + unit.lines.length) =
            rest.flatMap Statement.lines ++ after := by
        rw [← List.drop_drop, shape, List.drop_left]
      rw [walk_of_finished first shape, endLines, ← inductionHypothesis later shapeBehind]
      rfl

theorem getLast?_endLines
    {units : List Statement} (notEmpty : units ≠ []) (start : Nat) :
    (endLines start units).getLast? =
      some (start + (units.flatMap Statement.lines).length - 1) := by
  induction units generalizing start with
  | nil =>
      exact absurd rfl notEmpty
  | cons unit rest inductionHypothesis =>
      rw [endLines, List.flatMap_cons, List.length_append]
      cases rest with
      | nil =>
          simp [endLines, Statement.lines]
      | cons next others =>
          have later := inductionHypothesis (List.cons_ne_nil next others)
            (start + unit.lines.length)
          rw [endLines] at later ⊢
          rw [List.getLast?_cons_cons, later, Nat.add_assoc]

/-- The run that ends on a line, as finished statements: they are the lines from the first
to the last one, and no further one starts behind them. -/
theorem exists_run_of_runEnd?
    {document : List Text} {start stop : Nat}
    (found : runEnd? document start = some stop) :
    ∃ (run : List Statement) (after : List Text),
      (∀ unit ∈ run, unit.Finished) ∧
        run ≠ [] ∧
        document.drop start = run.flatMap Statement.lines ++ after ∧
        runLength after = 0 ∧
        start + (run.flatMap Statement.lines).length = stop + 1 ∧
        (document.take (stop + 1)).drop start = run.flatMap Statement.lines := by
  obtain ⟨run, after, finished, shape, ended⟩ := exists_run (document.drop start)
  have isRun := runLength_flatMap_lines finished after
  rw [← shape, ended, Nat.add_zero] at isRun
  obtain ⟨filled, length⟩ := (runEnd?_eq_some_iff document start stop).mp found
  rw [isRun] at filled length
  refine ⟨run, after, finished, ?_, shape, ended, length, ?_⟩
  · rintro rfl
    cases filled
  · have taken : stop + 1 - start = (run.flatMap Statement.lines).length := by omega
    rw [List.drop_take, taken, shape, List.take_left]

/-- A finished statement takes more than its first line exactly when that one leaves a brace
open, and then all lines up to the first one with a closing brace. -/
theorem Statement.Finished.shape
    {statement : Statement}
    (finished : statement.Finished) :
    statement.isMultiline = opensLines statement.first ∧
      (statement.isMultiline = true →
        ∃ inner last, statement.rest = inner ++ [last] ∧
          (∀ line ∈ inner, CodePoint.scalar '\x7d' ∉ line) ∧ CodePoint.scalar '\x7d' ∈ last) := by
  cases finished with
  | single starts closed =>
      refine ⟨by simp [isMultiline, opensLines, closed], ?_⟩
      intro several
      cases several
  | @braced first last inner starts leavesOpen noClosing closes =>
      exact ⟨by simp [isMultiline, opensLines, starts, leavesOpen],
        fun _ => ⟨inner, last, rfl, noClosing, closes⟩⟩

/-- A run that is handed over on its own is cut where the walk through the document came
upon the ends of its statements: nothing is lost, every statement starts an import, and
every one that goes on past its first line ends on the first later line with a closing
brace.  A walk through the run alone comes upon the same ends, so that none of them is a
makeshift for an end that is missing. -/
theorem statements_slice_cutAt_walk
    {document : List Text} {start stop : Nat}
    (found : runEnd? document start = some stop) :
    let slice := (document.take (stop + 1)).drop start
    let units := statements slice
    units.flatMap Statement.lines = slice ∧
      endLines start units = walk document start ∧
      (walk document start).getLast? = some stop ∧
      endLines 0 units = walk slice 0 ∧
      ∀ unit ∈ units,
        isStart unit.first = true ∧
          unit.isMultiline = opensLines unit.first ∧
          (unit.isMultiline = true →
            ∃ inner last, unit.rest = inner ++ [last] ∧
              (∀ line ∈ inner, CodePoint.scalar '\x7d' ∉ line) ∧
                CodePoint.scalar '\x7d' ∈ last) := by
  intro slice units
  obtain ⟨run, after, finished, notEmpty, shape, ended, length, isSlice⟩ :=
    exists_run_of_runEnd? found
  have isCut : units = run :=
    (congrArg statements isSlice).trans (statements_flatMap_lines finished)
  have walked : walk document start = endLines start run :=
    walk_eq_endLines finished shape ended
  have walkedAlone : walk slice 0 = endLines 0 run := by
    have shapeAlone : slice.drop 0 = run.flatMap Statement.lines ++ [] := by
      rw [List.drop_zero, List.append_nil]
      exact isSlice
    exact walk_eq_endLines finished shapeAlone (by rw [runLength])
  rw [isCut, walked, walkedAlone]
  refine ⟨isSlice.symm, rfl, ?_, rfl, ?_⟩
  · rw [getLast?_endLines notEmpty, length]
    rfl
  · intro unit member
    exact ⟨(finished unit member).isStart, (finished unit member).shape⟩

/-- Two imports behind a comment and in front of one that never ends. -/
def importsAmong : List Text :=
  ["// a", "import b from 'b'", "import \x7b", "  c,",
    "\x7d from 'c' // \x7d", "import \x7b", "  d"]

theorem statements_slice_cutAt_walk_among :
    runEnd? importsAmong 1 = some 4 ∧
      walk importsAmong 1 = [1, 4] ∧
      endLines 1 (statements ((importsAmong.take 5).drop 1)) = [1, 4] := by
  have found : runEnd? importsAmong 1 = some 4 := by
    decide +kernel
  have isCut : endLines 1 (statements ((importsAmong.take 5).drop 1)) = [1, 4] := by
    decide +kernel
  obtain ⟨_, sameEnds, _⟩ := statements_slice_cutAt_walk found
  exact ⟨found, sameEnds.symm.trans isCut, isCut⟩

end Tidy.Import
