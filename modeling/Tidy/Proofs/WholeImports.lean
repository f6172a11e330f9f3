import Mathlib.Data.List.Basic
import Mathlib.Data.List.TakeWhile
import Tidy.Proofs.LineWise

/-!
# Imports that stay whole

A braced import over several lines is taken to end on the first later line with a
closing brace, whatever follows the brace.  The statements of a run therefore end with
their `from` clause exactly when no closing brace stands inside one of them, and then
they are moved as wholes.
-/

namespace Tidy

open Text

namespace Import

/-! ## Lines that close a braced import -/

/-- Whether the first closing brace of a line is followed by the word `from`, blanks
aside. -/
def closesWithFrom (line : Text) : Bool :=
  match line.dropWhile fun character => character != CodePoint.scalar '\x7d' with
  | [] => false
  | closing :: behind => startsFrom (some closing) (stripLeft behind)

theorem startsFrom_iff
    {before : CodePoint} (bounds : boundsLeft (some before) = true) (text : Text) :
    startsFrom (some before) text = true ↔
      ∃ behind, text = fromWord ++ behind ∧ boundsRight behind.head? = true := by
  unfold startsFrom
  rw [bounds, Bool.and_true, Bool.and_eq_true, List.isPrefixOf_iff_prefix]
  constructor
  · rintro ⟨⟨behind, rfl⟩, bounded⟩
    rw [List.drop_left] at bounded
    exact ⟨behind, rfl, bounded⟩
  · rintro ⟨behind, rfl, bounded⟩
    rw [List.drop_left]
    exact ⟨List.prefix_append _ _, bounded⟩

theorem closesWithFrom_iff
    (line : Text) :
    closesWithFrom line = true ↔
      ∃ before blanks behind,
        line = before ++ CodePoint.scalar '\x7d' :: (blanks ++ (fromWord ++ behind)) ∧
        CodePoint.scalar '\x7d' ∉ before ∧
        (∀ character ∈ blanks, isBlank character = true) ∧
        boundsRight behind.head? = true := by
  unfold closesWithFrom
  constructor
  · intro closes
    cases shape : line.dropWhile fun character => character != CodePoint.scalar '\x7d' with
    | nil =>
        rw [shape] at closes
        cases closes
    | cons closing rest =>
        have isClosing : closing = '\x7d' := by
          have refused :=
            List.head?_dropWhile_not (fun character => character != CodePoint.scalar '\x7d') line
          rw [shape] at refused
          simpa using refused
        subst isClosing
        rw [shape] at closes
        obtain ⟨behind, starts, bounded⟩ := (startsFrom_iff rfl _).mp closes
        obtain ⟨blanks, split, allBlank⟩ := exists_append_stripLeft rest
        refine ⟨line.takeWhile fun character => character != CodePoint.scalar '\x7d', blanks,
          behind,
          ?_, ?_, allBlank, bounded⟩
        · rw [← starts, ← split, ← shape, List.takeWhile_append_dropWhile]
        · intro member
          simpa using List.mem_takeWhile_imp member
  · rintro ⟨before, blanks, behind, rfl, noClosing, allBlank, bounded⟩
    have passes : ∀ character ∈ before, (character != '\x7d') = true := by
      intro character member
      exact bne_iff_ne.mpr fun isClosing => noClosing (isClosing ▸ member)
    have tight : StartsTight (fromWord ++ behind) := by
      intro character isFirst
      cases isFirst
      rfl
    rw [List.dropWhile_append_of_pos passes, List.dropWhile_cons_of_neg (by simp)]
    simp only [stripLeft_blanks_append allBlank tight]
    exact (startsFrom_iff rfl _).mpr ⟨behind, rfl, bounded⟩

theorem closing_mem_of_closesWithFrom
    {line : Text}
    (closes : closesWithFrom line = true) :
    CodePoint.scalar '\x7d' ∈ line := by
  obtain ⟨before, blanks, behind, rfl, _⟩ := (closesWithFrom_iff line).mp closes
  simp

theorem closesWithFrom_strip
    {line : Text}
    (closes : closesWithFrom line = true) :
    closesWithFrom line.strip = true := by
  obtain ⟨before, blanks, behind, rfl, noClosing, allBlank, bounded⟩ :=
    (closesWithFrom_iff line).mp closes
  refine (closesWithFrom_iff _).mpr
    ⟨stripLeft before, blanks, stripRight behind, ?_, ?_, allBlank, ?_⟩
  · have tight :
        EndsTight (stripLeft before ++ CodePoint.scalar '\x7d' :: (blanks ++ fromWord)) := by
      intro character isLast
      rw [List.append_cons, ← List.append_assoc, List.getLast?_append] at isLast
      cases isLast
      rfl
    have trimmed := stripRight_append_of_endsTight tight behind
    simp only [List.append_assoc, List.cons_append] at trimmed
    rw [strip, stripLeft_append_cons before rfl, trimmed]
  · intro member
    exact noClosing ((stripLeft_sublist before).subset member)
  · cases isFirst : (stripRight behind).head? with
    | none =>
        rfl
    | some character =>
        rw [head?_of_head?_stripRight isFirst] at bounded
        exact bounded

/-! ## Whole imports -/

namespace Statement

/-- A statement of several lines ends where its braces are followed by `from`. -/
def EndsWithFrom (statement : Statement) : Prop :=
  ∀ last, statement.rest.getLast? = some last → closesWithFrom last = true

/-- A whole import: a line that leaves no brace open, or the lines up to the one that
closes the brace and goes on with `from`, with no closing brace in between. -/
inductive Whole : Statement → Prop
  | single {first : Text} :
      isStart first = true →
      leavesBraceOpen first = false →
      Whole ⟨first, []⟩
  | braced {first last : Text} {inner : List Text} :
      isStart first = true →
      leavesBraceOpen first = true →
      (∀ line ∈ inner, CodePoint.scalar '\x7d' ∉ line) →
      closesWithFrom last = true →
      Whole ⟨first, inner ++ [last]⟩

theorem whole_iff
    (statement : Statement) :
    statement.Whole ↔ statement.Finished ∧ statement.EndsWithFrom := by
  constructor
  · intro whole
    cases whole with
    | single starts closed =>
        refine ⟨.single starts closed, ?_⟩
        intro last isLast
        cases isLast
    | braced starts leavesOpen noClosing closes =>
        refine ⟨.braced starts leavesOpen noClosing (closing_mem_of_closesWithFrom closes), ?_⟩
        intro last isLast
        rw [List.getLast?_concat, Option.some.injEq] at isLast
        rw [← isLast]
        exact closes
  · rintro ⟨finished, endsWithFrom⟩
    cases finished with
    | single starts closed =>
        exact .single starts closed
    | braced starts leavesOpen noClosing _ =>
        exact .braced starts leavesOpen noClosing (endsWithFrom _ List.getLast?_concat)

theorem EndsWithFrom.normalized
    {statement : Statement}
    (endsWithFrom : statement.EndsWithFrom) :
    statement.normalized.EndsWithFrom := by
  intro written isWritten
  cases isLast : statement.rest.getLast? with
  | none =>
      rw [normalized_of_single (List.getLast?_eq_none_iff.mp isLast)] at isWritten
      cases isWritten
  | some last =>
      rw [normalized_of_last isLast, List.getLast?_concat, Option.some.injEq] at isWritten
      rw [← isWritten]
      exact closesWithFrom_strip (endsWithFrom last isLast)

end Statement

def CutInto (units : List Statement) (lines : List Text) : Prop :=
  lines = units.flatMap Statement.lines ∧ ∀ unit ∈ units, unit.Whole

theorem CutInto.statements_eq
    {units : List Statement} {lines : List Text}
    (cut : CutInto units lines) :
    statements lines = units := by
  rw [cut.1]
  exact statements_flatMap_lines fun unit member =>
    ((Statement.whole_iff unit).mp (cut.2 unit member)).1

theorem CutInto.sort
    {units : List Statement} {lines : List Text}
    (cut : CutInto units lines) :
    CutInto (sort units) (sortLines lines) := by
  refine ⟨by rw [sortLines, cut.statements_eq], ?_⟩
  intro written member
  obtain ⟨unit, unitMember, rfl⟩ := List.mem_map.mp ((sort_perm units).mem_iff.mp member)
  obtain ⟨finished, endsWithFrom⟩ := (Statement.whole_iff unit).mp (cut.2 unit unitMember)
  exact (Statement.whole_iff _).mpr ⟨finished.normalized, endsWithFrom.normalized⟩

end Import

/-! ## The imports of a text -/

theorem Scanned.finished_of_mem
    {models imports : Bool} {options : Options}
    {index first : Nat} {lines written run : List Text} {found : List Finding}
    (scanned : Scanned models imports options index lines found written)
    (member : Finding.imports first run ∈ found) :
    ∀ statement ∈ Import.statements run, statement.Finished := by
  induction scanned with
  | nothing index =>
      cases member
  | line _ _ _ inductionHypothesis =>
      exact inductionHypothesis member
  | unclosedModel _ _ _ inductionHypothesis =>
      exact inductionHypothesis (List.mem_of_ne_of_mem (by simp) member)
  | model _ _ _ inductionHypothesis =>
      exact inductionHypothesis (List.mem_of_ne_of_mem (by simp) member)
  | unfinishedImport _ _ _ _ inductionHypothesis =>
      exact inductionHypothesis (List.mem_of_ne_of_mem (by simp) member)
  | @imports _ head tail after _ _ _ _ isRun _ inductionHypothesis =>
      rcases List.mem_cons.mp member with here | later
      · cases here
        have isWhole : Import.runLength ((head :: tail) ++ after) = (head :: tail).length := isRun
        exact (Import.finished_of_runLength isWhole).1
      · exact inductionHypothesis later

/-- The statements of a run end with their `from` clauses exactly when the run can be cut
into whole imports; these are then written as wholes. -/
theorem imports_endWithFrom_iff
    {passes : List String} {text : Text} {first : Nat} {run : List Text}
    (found : Finding.imports first run ∈ findings passes (Source.ofText text)) :
    ((∀ statement ∈ Import.statements run, statement.EndsWithFrom) ↔
        ∃ units, Import.CutInto units run) ∧
      ∀ units, Import.CutInto units run →
        ∃ written, written.Perm (units.map Import.Statement.normalized) ∧
          Import.CutInto written (Import.sortLines run) := by
  have finished := (scanned_relaidLines {} passes text).finished_of_mem found
  refine ⟨⟨?_, ?_⟩, ?_⟩
  · intro endWithFrom
    refine ⟨Import.statements run, (Import.flatMap_lines_statements run).symm, ?_⟩
    intro statement member
    exact (Import.Statement.whole_iff statement).mpr
      ⟨finished statement member, endWithFrom statement member⟩
  · rintro ⟨units, cut⟩ statement member
    rw [cut.statements_eq] at member
    exact ((Import.Statement.whole_iff statement).mp (cut.2 statement member)).2
  · intro units cut
    exact ⟨Import.sort units, Import.sort_perm units, cut.sort⟩

/-- A run whose braced import has blanks and a further brace around its `from` clause. -/
def bracedImports : Text :=
  ("import b from 'b'\nimport \x7b\n  a,\r\n  cc\n \x7d  from 'x' // \x7d\n\x7d" : Text)

def bracedRun : List Text :=
  ["import b from 'b'", "import \x7b", "  a,", "  cc",
    " \x7d  from 'x' // \x7d"]

theorem imports_endWithFrom_iff_braced :
    findings [Formatter.sortImports.name] (Source.ofText bracedImports) =
        [.imports 0 bracedRun] ∧
      ∃ units written,
        Import.CutInto units bracedRun ∧
          written.Perm (units.map Import.Statement.normalized) ∧
          Import.CutInto written
            ["import \x7b", "  cc,", "  a",
              "\x7d  from 'x' // \x7d", "import b from 'b'"] := by
  have isFound :
      findings [Formatter.sortImports.name] (Source.ofText bracedImports) =
        [.imports 0 bracedRun] := by
    decide +kernel
  have isCut :
      Import.statements bracedRun =
        [⟨("import b from 'b'" : Text), []⟩,
          ⟨("import \x7b" : Text),
            ["  a,", "  cc", " \x7d  from 'x' // \x7d"]⟩] := by
    decide +kernel
  have isOrdered :
      Specifiers.longestFirst (["  a", "  cc"] : List Text) =
        (["  cc", "  a"] : List Text) := by
    simp [Specifiers.longestFirst, List.mergeSort, Text.ofList]
  have isInner :
      Specifiers.sort (["  a,", "  cc"] : List Text) = (["  cc,", "  a"] : List Text) :=
    Specifiers.sort_of_longestFirst ["  a,", "  cc"] (by decide +kernel) isOrdered
  have isWritten :
      Import.Statement.normalized
          ⟨("import \x7b" : Text), ["  a,", "  cc", " \x7d  from 'x' // \x7d"]⟩ =
        ⟨("import \x7b" : Text), ["  cc,", "  a", "\x7d  from 'x' // \x7d"]⟩ := by
    rw [Import.Statement.normalized_of_multiLineBraced rfl (by decide +kernel)]
    exact congrArg (fun inner => (⟨_, inner ++ [_]⟩ : Import.Statement)) isInner
  have isSorted :
      Import.sortLines bracedRun =
        (["import \x7b", "  cc,", "  a",
          "\x7d  from 'x' // \x7d", "import b from 'b'"] : List Text) := by
    rw [Import.sortLines, isCut, Import.sort, List.map_cons, List.map_singleton, isWritten]
    decide +kernel
  obtain ⟨endWithFrom, whole⟩ :=
    imports_endWithFrom_iff (by rw [isFound]; exact List.mem_singleton_self _)
  have allEnd : ∀ statement ∈ Import.statements bracedRun, statement.EndsWithFrom := by
    rw [isCut]
    intro statement member last isLast
    rcases List.mem_pair.mp member with rfl | rfl
    · cases isLast
    · cases isLast
      decide
  obtain ⟨units, cut⟩ := endWithFrom.mp allEnd
  rw [← isSorted]
  obtain ⟨written, permuted, cutAgain⟩ := whole units cut
  exact ⟨isFound, units, written, cut, permuted, cutAgain⟩

/-- An import with a closing brace in a comment of a specifier line. -/
def commentedBrace : Text :=
  ("import b from 'b'\nimport \x7b\n  a, // \x7d\n  cc,\n\x7d from 'x'" : Text)

/-- The brace in the comment ends the statement, which is then torn apart. -/
theorem imports_torn :
    (¬ ∀ (passes : List String) (text : Text) (first : Nat) (run : List Text),
        Finding.imports first run ∈ findings passes (Source.ofText text) →
          ∀ statement ∈ Import.statements run, statement.EndsWithFrom) ∧
      format {} [Formatter.sortImports.name] commentedBrace =
        ("import \x7b\na, // \x7d\nimport b from 'b'\n  cc,\n\x7d from 'x'" : Text) := by
  refine ⟨?_, by decide +kernel⟩
  intro endWithFrom
  have isFound :
      findings [Formatter.sortImports.name] (Source.ofText commentedBrace) =
        [.imports 0
          ["import b from 'b'", "import \x7b", "  a, // \x7d"]] := by
    decide +kernel
  have isCut :
      Import.statements
          ["import b from 'b'", "import \x7b", "  a, // \x7d"] =
        [⟨("import b from 'b'" : Text), []⟩,
          ⟨("import \x7b" : Text), ["  a, // \x7d"]⟩] := by
    decide +kernel
  have ends :=
    endWithFrom _ commentedBrace 0 _ (by rw [isFound]; exact List.mem_singleton_self _)
      ⟨("import \x7b" : Text), ["  a, // \x7d"]⟩ (by rw [isCut]; simp)
  exact absurd (ends _ rfl) (by decide)

end Tidy
