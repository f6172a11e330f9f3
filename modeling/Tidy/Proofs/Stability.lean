import Tidy.Proofs.LineWise

/-!
# Ordered imports stay in order

The search through a text with its imports in order comes upon the same runs and
the same unfinished imports as before, and there is nothing left to change, unless
a specifier line ended with two commas.
-/

namespace Tidy

open Text

namespace Scanned

variable {options : Options} {index : Nat} {lines written : List Text} {found : List Finding}

/-- The new lines hold commas and characters of the old ones. -/
theorem mem_of_mem_written
    (scanned : Scanned false true options index lines found written)
    {text : Text} {character : CodePoint}
    (member : text ∈ written)
    (inText : character ∈ text) :
    character = ',' ∨ ∃ line ∈ lines, character ∈ line := by
  induction scanned with
  | nothing index =>
      cases member
  | line _ _ _ inductionHypothesis =>
      rcases List.mem_cons.mp member with rfl | later
      · exact Or.inr ⟨_, List.mem_cons_self, inText⟩
      · rcases inductionHypothesis later with isComma | ⟨line, lineMember, inLine⟩
        · exact Or.inl isComma
        · exact Or.inr ⟨line, List.mem_cons_of_mem _ lineMember, inLine⟩
  | unclosedModel isModel _ _ _ =>
      cases isModel
  | model isModel _ _ _ =>
      cases isModel
  | unfinishedImport _ _ _ _ inductionHypothesis =>
      rcases List.mem_cons.mp member with rfl | later
      · exact Or.inr ⟨_, List.mem_cons_self, inText⟩
      · rcases inductionHypothesis later with isComma | ⟨line, lineMember, inLine⟩
        · exact Or.inl isComma
        · exact Or.inr ⟨line, List.mem_cons_of_mem _ lineMember, inLine⟩
  | imports _ _ _ _ inductionHypothesis =>
      rw [← List.cons_append]
      rcases List.mem_append.mp member with inRun | later
      · rcases Import.mem_of_mem_sortLines inRun inText with isComma | ⟨line, lineMember, inLine⟩
        · exact Or.inl isComma
        · exact Or.inr ⟨line, List.mem_append_left _ lineMember, inLine⟩
      · rcases inductionHypothesis later with isComma | ⟨line, lineMember, inLine⟩
        · exact Or.inl isComma
        · exact Or.inr ⟨line, List.mem_append_right _ lineMember, inLine⟩

/-- Where no run starts, none starts in the new lines. -/
theorem runLength_written
    (scanned : Scanned false true options index lines found written)
    (ended : Import.runLength lines = 0) :
    Import.runLength written = 0 := by
  cases scanned with
  | nothing index =>
      exact ended
  | line _ notStart _ =>
      rw [Import.runLength, if_neg (by simpa using notStart)]
  | unclosedModel isModel _ _ =>
      cases isModel
  | model isModel _ _ =>
      cases isModel
  | unfinishedImport _ isStart _ later =>
      have starts := (Bool.and_eq_true_iff.mp isStart).2
      obtain ⟨leavesOpen, noClosing⟩ := (Import.runLength_eq_zero_iff _ starts).mp ended
      refine (Import.runLength_eq_zero_iff _ starts).mpr ⟨leavesOpen, ?_⟩
      intro text member isClosing
      rcases later.mem_of_mem_written member isClosing with isComma | ⟨line, lineMember, inLine⟩
      · exact absurd isComma (by decide)
      · exact noClosing line lineMember inLine
  | imports _ _ isRun _ =>
      rw [isRun] at ended
      cases ended

/-- The new lines are searched with nothing to change. -/
theorem exists_settled
    (scanned : Scanned false true options index lines found written)
    (single :
      ∀ finding ∈ found, ∀ statement ∈ Import.statements finding.region,
        statement.SingleCommas) :
    ∃ again, Scanned false true options index written again written := by
  induction scanned with
  | nothing index =>
      exact ⟨[], .nothing index⟩
  | line notModel notStart _ inductionHypothesis =>
      obtain ⟨again, settled⟩ := inductionHypothesis single
      exact ⟨again, .line notModel notStart settled⟩
  | unclosedModel isModel _ _ _ =>
      cases isModel
  | model isModel _ _ _ =>
      cases isModel
  | @unfinishedImport index line _ _ _ notModel isStart isUnfinished scanned
      inductionHypothesis =>
      obtain ⟨again, settled⟩ := inductionHypothesis (List.forall_mem_cons.mp single).2
      have stillUnfinished :=
        (unfinishedImport notModel isStart isUnfinished scanned).runLength_written isUnfinished
      exact ⟨_, .unfinishedImport notModel isStart stillUnfinished settled⟩
  | @imports index head tail after written found notModel isStart isRun scanned
      inductionHypothesis =>
      obtain ⟨firstSingle, laterSingle⟩ := List.forall_mem_cons.mp single
      obtain ⟨again, settled⟩ := inductionHypothesis laterSingle
      have isWhole : Import.runLength ((head :: tail) ++ after) = (head :: tail).length := isRun
      obtain ⟨finished, ended⟩ := Import.finished_of_runLength isWhole
      obtain ⟨fixed, isRunAgain⟩ := Import.sortLines_settled finished firstSingle written
      rw [scanned.runLength_written ended, Nat.add_zero] at isRunAgain
      have sameLength := Import.length_sortLines (head :: tail)
      obtain ⟨newHead, newTail, shape⟩ := List.exists_cons_of_length_eq_add_one sameLength
      rw [shape] at fixed isRunAgain sameLength ⊢
      have tailLength : newTail.length = tail.length := Nat.succ.inj sameLength
      have newStart : (true && Import.isStart newHead) = true :=
        Import.isStart_of_runLength_ne_zero
          (by rw [← List.cons_append, isRunAgain]; exact Nat.succ_ne_zero _)
      have runAgain : Import.runLength (newHead :: (newTail ++ written)) = newTail.length + 1 := by
        rw [tailLength]
        exact isRunAgain
      rw [← tailLength] at settled
      have written := imports rfl newStart runAgain settled
      rw [fixed] at written
      exact ⟨_, written⟩

end Scanned

/-! ## Formatting imports twice -/

/-- The lines strictly inside the imports of a text that have braces over several
lines. -/
def specifierLines (text : Text) : List Text :=
  (findings [Formatter.sortImports.name] (Source.ofText text)).flatMap fun finding =>
    ((Import.statements finding.region).filter fun statement =>
      statement.group == .multiLineBraced).flatMap Import.Statement.innerLines

theorem singleCommas_of_specifierLines
    {text : Text}
    (single : ∀ line ∈ specifierLines text, ¬ Specifiers.DoublesComma line.stripRight) :
    ∀ finding ∈ findings [Formatter.sortImports.name] (Source.ofText text),
      ∀ statement ∈ Import.statements finding.region, statement.SingleCommas := by
  intro finding findingMember statement statementMember isBraced line lineMember
  apply single line
  refine List.mem_flatMap.mpr
    ⟨finding, findingMember, List.mem_flatMap.mpr ⟨statement, ?_, lineMember⟩⟩
  exact List.mem_filter.mpr ⟨statementMember, beq_iff_eq.mpr isBraced⟩

/-- When no specifier line ends with two commas, blanks at its end aside, imports that
are formatted have no edits left, and formatting them again changes nothing. -/
theorem sortImports_stable
    (options : Options) (text : Text)
    (single : ∀ line ∈ specifierLines text, ¬ Specifiers.DoublesComma line.stripRight) :
    scan options [Formatter.sortImports.name]
        (format options [Formatter.sortImports.name] text) = [] ∧
      format options [Formatter.sortImports.name]
          (format options [Formatter.sortImports.name] text) =
        format options [Formatter.sortImports.name] text := by
  have scanned := scanned_relaidLines options [Formatter.sortImports.name] text
  obtain ⟨again, settled⟩ :=
    Scanned.exists_settled scanned (singleCommas_of_specifierLines single)
  rw [← texts_format] at settled
  have unchanged :
      relaidLines options [Formatter.sortImports.name]
          (format options [Formatter.sortImports.name] text) =
        (Source.ofText (format options [Formatter.sortImports.name] text)).texts := by
    have foundAgain :
        findings [Formatter.sortImports.name]
            (Source.ofText (format options [Formatter.sortImports.name] text)) = again :=
      settled.eq_search
    unfold relaidLines
    rw [foundAgain]
    exact settled.splice_eq List.length_nil
  have noEdits := scan_eq_nil unchanged
  refine ⟨noEdits, ?_⟩
  conv => lhs; rw [format, noEdits]
  exact Edit.applyAll_nil _

/-- A run with mixed endings and specifiers out of order, then a run of one line in
front of an import that never ends. -/
def scatteredImports : Text :=
  ("import b from 'b'\r\n import \x7b\n  a , \r\n\n  longer,, c,\n  type \x7d from 'a' ;\n" ++
    "x\nimport 'p'\nimport \x7b q,\n")

theorem sortImports_stable_scattered :
    specifierLines scatteredImports = (["  a , ", [], "  longer,, c,"] : List Text) ∧
      (scan {} [Formatter.sortImports.name] scatteredImports).length = 1 ∧
      scan {} [Formatter.sortImports.name]
        (format {} [Formatter.sortImports.name] scatteredImports) = [] := by
  have lines :
      specifierLines scatteredImports = (["  a , ", [], "  longer,, c,"] : List Text) := by
    decide +kernel
  have isFound :
      findings [Formatter.sortImports.name] (Source.ofText scatteredImports) =
        [.imports 0
          (["import b from 'b'", " import \x7b", "  a , ", [], "  longer,, c,",
            "  type \x7d from 'a' ;"] : List Text),
          .imports 7 (["import 'p'"] : List Text), .unfinishedImport 8] := by
    decide +kernel
  have isOrdered :
      Specifiers.longestFirst (["  a", [], "  longer,, c"] : List Text) =
        (["  longer,, c", "  a", []] : List Text) := by
    simp [Specifiers.longestFirst, List.mergeSort, Text.ofList]
  have isInner :
      Specifiers.sort (["  a , ", [], "  longer,, c,"] : List Text) =
        (["  longer,, c,", "  a,", []] : List Text) :=
    Specifiers.sort_of_longestFirst ["  a , ", [], "  longer,, c,"] (by decide +kernel) isOrdered
  have isWritten :
      Import.Statement.normalized
          ⟨(" import \x7b" : Text), ["  a , ", [], "  longer,, c,", "  type \x7d from 'a' ;"]⟩ =
        ⟨("import \x7b" : Text), ["  longer,, c,", "  a,", [], "type \x7d from 'a' ;"]⟩ := by
    rw [Import.Statement.normalized_of_multiLineBraced rfl (by decide +kernel)]
    exact congrArg (fun inner => (⟨_, inner ++ [_]⟩ : Import.Statement)) isInner
  have isCut :
      Import.statements (["import b from 'b'", " import \x7b", "  a , ", [], "  longer,, c,",
          "  type \x7d from 'a' ;"] : List Text) =
        [⟨("import b from 'b'" : Text), []⟩,
          ⟨(" import \x7b" : Text),
            ["  a , ", [], "  longer,, c,", "  type \x7d from 'a' ;"]⟩] := by
    decide +kernel
  have isSorted :
      Import.sortLines (["import b from 'b'", " import \x7b", "  a , ", [], "  longer,, c,",
          "  type \x7d from 'a' ;"] : List Text) =
        (["import \x7b", "  longer,, c,", "  a,", [], "type \x7d from 'a' ;",
          "import b from 'b'"] : List Text) := by
    rw [Import.sortLines, isCut, Import.sort, List.map_cons, List.map_singleton, isWritten]
    decide +kernel
  refine ⟨lines, ?_, (sortImports_stable {} scatteredImports ?_).1⟩
  · simp only [scan, isFound, List.filterMap_cons, Finding.edit?, isSorted]
    decide +kernel
  · rw [lines]
    decide

/-- An import with a blank behind the two commas of a specifier line. -/
def spacedCommas : Text :=
  ("import \x7b\na ,, \nbbbb\n\x7d from 'x'" : Text)

/-- The blank matters: it goes first, and then the line ends with two commas. -/
theorem sortImports_unstable :
    ¬ ∀ (options : Options) (text : Text),
      (∀ line ∈ specifierLines text, ¬ Specifiers.DoublesComma line) →
        scan options [Formatter.sortImports.name]
          (format options [Formatter.sortImports.name] text) = [] := by
  intro stable
  have lines : specifierLines spacedCommas = (["a ,, ", "bbbb"] : List Text) := by
    decide +kernel
  have found :
      findings [Formatter.sortImports.name] (Source.ofText spacedCommas) =
        [.imports 0 (["import \x7b", "a ,, ", "bbbb", "\x7d from 'x'"] : List Text)] := by
    decide +kernel
  have ordered :
      Specifiers.longestFirst (["a ,", "bbbb"] : List Text) = (["bbbb", "a ,"] : List Text) := by
    simp [Specifiers.longestFirst, List.mergeSort, Text.ofList]
  have written :
      Import.sortLines (["import \x7b", "a ,, ", "bbbb", "\x7d from 'x'"] : List Text) =
        (["import \x7b", "bbbb,", "a ,", "\x7d from 'x'"] : List Text) :=
    Import.sortLines_braced "import \x7b" "\x7d from 'x'" ["a ,, ", "bbbb"] (by decide +kernel)
      (by decide +kernel) (by decide +kernel) ordered
  have formatted :
      format {} [Formatter.sortImports.name] spacedCommas =
        ("import \x7b\nbbbb,\na ,\n\x7d from 'x'" : Text) := by
    rw [format_eq_join, relaid, relaidLines, found, List.map_singleton, Finding.patch,
      Finding.rewritten, written]
    decide +kernel
  have foundAgain :
      findings [Formatter.sortImports.name]
          (Source.ofText ("import \x7b\nbbbb,\na ,\n\x7d from 'x'" : Text)) =
        [.imports 0 (["import \x7b", "bbbb,", "a ,", "\x7d from 'x'"] : List Text)] := by
    decide +kernel
  have orderedAgain :
      Specifiers.longestFirst (["bbbb", "a"] : List Text) = (["bbbb", "a"] : List Text) := by
    simp [Specifiers.longestFirst, List.mergeSort, Text.ofList]
  have writtenAgain :
      Import.sortLines (["import \x7b", "bbbb,", "a ,", "\x7d from 'x'"] : List Text) =
        (["import \x7b", "bbbb,", "a,", "\x7d from 'x'"] : List Text) :=
    Import.sortLines_braced "import \x7b" "\x7d from 'x'" ["bbbb,", "a ,"] (by decide +kernel)
      (by decide +kernel) (by decide +kernel) orderedAgain
  have changesAgain :
      (scan {} [Formatter.sortImports.name]
        (format {} [Formatter.sortImports.name] spacedCommas)).length = 1 := by
    rw [formatted]
    simp only [scan, foundAgain, List.filterMap_cons, Finding.edit?, writtenAgain]
    decide +kernel
  rw [stable {} spacedCommas (by rw [lines]; decide)] at changesAgain
  cases changesAgain

end Tidy
