import Tidy.Proofs.RunOrder
import Tidy.Proofs.SpecifierLines

/-!
# Specifiers that are imported

The specifiers of a braced import stand between its braces.  Writing the import anew keeps
them exactly when its lines keep them.
-/

namespace Tidy

open Text

namespace Text

/-- The text between the first opening brace and the first closing brace behind it. -/
def betweenBraces (text : Text) : Text :=
  ((fromBrace text).drop 1).takeWhile fun character => character != CodePoint.scalar '\x7d'

theorem stack_append
    (lines : List Text) (bottom behind : Text) :
    stack lines (bottom ++ behind) = stack lines bottom ++ behind := by
  induction lines with
  | nil =>
      rfl
  | cons line rest inductionHypothesis =>
      rw [stack_cons, stack_cons, inductionHypothesis, List.append_assoc, List.cons_append]

theorem intercalate_newline
    (lines : List Text) (last : Text) :
    (['\n'] : Text).intercalate (lines ++ [last]) = stack lines last := by
  induction lines with
  | nil =>
      simp [List.intercalate, stack]
  | cons line rest inductionHypothesis =>
      have notEmpty : rest ++ [last] ≠ [] := by simp
      obtain ⟨next, others, shape⟩ := List.exists_cons_of_ne_nil notEmpty
      rw [List.cons_append, shape, List.intercalate_cons_cons, ← shape, inductionHypothesis,
        stack_cons, List.append_assoc]
      rfl

theorem not_mem_stack
    {lines : List Text} {bottom : Text} {character : CodePoint}
    (noFeed : character ≠ '\n')
    (notInLines : ∀ line ∈ lines, character ∉ line)
    (notInBottom : character ∉ bottom) :
    character ∉ stack lines bottom := by
  induction lines with
  | nil =>
      exact notInBottom
  | cons line rest inductionHypothesis =>
      obtain ⟨notInLine, notInRest⟩ := List.forall_mem_cons.mp notInLines
      simp [stack_cons, notInLine, noFeed, inductionHypothesis notInRest]

theorem takeWhile_bne_append
    {front : Text} {stop : CodePoint}
    (noStop : stop ∉ front) (behind : Text) :
    (front ++ stop :: behind).takeWhile (fun character => character != stop) = front := by
  have passes : ∀ character ∈ front, (character != stop) = true := by
    intro character member
    exact bne_iff_ne.mpr fun isStop => noStop (isStop ▸ member)
  rw [List.takeWhile_append_of_pos passes, List.takeWhile_cons_of_neg (by simp), List.append_nil]

theorem fromBrace_append
    {front : Text}
    (noBrace : CodePoint.scalar '\x7b' ∉ front) (behind : Text) :
    fromBrace (front ++ CodePoint.scalar '\x7b' :: behind) = CodePoint.scalar '\x7b' :: behind := by
  have passes : ∀ character ∈ front, (character != '\x7b') = true := by
    intro character member
    exact bne_iff_ne.mpr fun isBrace => noBrace (isBrace ▸ member)
  rw [fromBrace, List.dropWhile_append_of_pos passes, List.dropWhile_cons_of_neg (by simp)]

/-- A character that is not blank keeps what surrounds it apart when the text is trimmed. -/
theorem strip_append_cons
    (front : Text) {character : CodePoint} (notBlank : isBlank character = false) (behind : Text) :
    strip (front ++ character :: behind) = stripLeft front ++ character :: stripRight behind := by
  have tight : EndsTight (stripLeft front ++ [character]) := by
    intro last isLast
    rw [List.getLast?_concat, Option.some.injEq] at isLast
    rw [← isLast, notBlank]
  rw [strip, stripLeft_append_cons front notBlank, List.append_cons,
    stripRight_append_of_endsTight tight, ← List.append_cons]

end Text

/-! ## Braces -/

namespace Import.Statement

/-- What follows the opening brace on its line. -/
def opening (statement : Statement) : Text :=
  (fromBrace statement.first).drop 1

/-- What precedes the closing brace on the last line. -/
def closing (statement : Statement) : Text :=
  (statement.rest.getLast?.getD []).takeWhile fun character => character != CodePoint.scalar '\x7d'

def specifiers (statement : Statement) : List Text :=
  specifiersOf (betweenBraces statement.text)

inductive Braces : Statement → Text → List Text → Text → Prop
  | mk {front opening closing behind : Text} {inner : List Text} :
      CodePoint.scalar '\x7b' ∉ front →
      CodePoint.scalar '\x7d' ∉ opening →
      (∀ line ∈ inner, CodePoint.scalar '\x7d' ∉ line) →
      CodePoint.scalar '\x7d' ∉ closing →
      Braces
        ⟨front ++ CodePoint.scalar '\x7b' :: opening,
          inner ++ [closing ++ CodePoint.scalar '\x7d' :: behind]⟩
        opening inner closing

theorem isMultiline_of_group
    {statement : Statement}
    (isBraced : statement.group = .multiLineBraced) :
    statement.isMultiline = true := by
  unfold group at isBraced
  simp only at isBraced
  split at isBraced
  · cases isBraced
  · split at isBraced
    · split at isBraced
      · assumption
      · cases isBraced
    · cases isBraced

theorem Finished.exists_braces
    {statement : Statement}
    (finished : statement.Finished)
    (isBraced : statement.group = .multiLineBraced) :
    ∃ opening inner closing, statement.Braces opening inner closing := by
  cases finished with
  | single _ _ =>
      cases isMultiline_of_group isBraced
  | @braced first last inner _ leavesOpen noClosing closes =>
      obtain ⟨front, opening, rfl, noBrace⟩ :=
        List.eq_append_cons_of_mem (opening_mem_of_leavesBraceOpen leavesOpen)
      obtain ⟨closing, behind, rfl, closingFirst⟩ := List.eq_append_cons_of_mem closes
      refine ⟨opening, inner, closing, .mk noBrace ?_ noClosing closingFirst⟩
      rw [leavesBraceOpen, closesBrace, fromBrace_append noBrace] at leavesOpen
      simpa using leavesOpen

namespace Braces

variable {statement : Statement} {opening closing : Text} {inner : List Text}

theorem opening_eq
    (braces : statement.Braces opening inner closing) :
    statement.opening = opening := by
  obtain ⟨noBrace, _, _, _⟩ := braces
  rw [Statement.opening, fromBrace_append noBrace, List.drop_one, List.tail_cons]

theorem closing_eq
    (braces : statement.Braces opening inner closing) :
    statement.closing = closing := by
  obtain ⟨_, _, _, closingFirst⟩ := braces
  rw [Statement.closing, List.getLast?_concat, Option.getD_some, takeWhile_bne_append closingFirst]

theorem innerLines_eq
    (braces : statement.Braces opening inner closing) :
    statement.innerLines = inner := by
  obtain ⟨_, _, _, _⟩ := braces
  exact innerLines_braced ..

theorem specifiers_eq
    (braces : statement.Braces opening inner closing) :
    statement.specifiers = specifiersOf (stack (opening :: inner) closing) := by
  obtain ⟨noBrace, openingLeft, innerLeft, closingFirst⟩ := braces
  rename_i front behind
  have isText :
      Statement.text
          ⟨front ++ CodePoint.scalar '\x7b' :: opening,
            inner ++ [closing ++ CodePoint.scalar '\x7d' :: behind]⟩ =
        front ++ CodePoint.scalar '\x7b' ::
          (stack (opening :: inner) closing ++ CodePoint.scalar '\x7d' :: behind) := by
    rw [Statement.text, Statement.lines, ← List.cons_append, intercalate_newline, stack_append,
      stack_cons, stack_cons]
    simp only [List.append_assoc, List.cons_append]
  have noClosing : CodePoint.scalar '\x7d' ∉ stack (opening :: inner) closing :=
    not_mem_stack (by decide) (List.forall_mem_cons.mpr ⟨openingLeft, innerLeft⟩) closingFirst
  rw [specifiers, betweenBraces, isText, fromBrace_append noBrace, List.drop_one, List.tail_cons,
    takeWhile_bne_append noClosing]

/-- The braces of the statement as it is written anew. -/
theorem normalized
    (braces : statement.Braces opening inner closing)
    (isBraced : statement.group = .multiLineBraced) :
    statement.normalized.Braces opening.stripRight (Specifiers.sort inner) closing.stripLeft := by
  obtain ⟨noBrace, openingLeft, innerLeft, closingFirst⟩ := braces
  rename_i front behind
  rw [normalized_braced, tidyInner, isBraced, innerLines_braced,
    strip_append_cons front rfl opening, strip_append_cons closing rfl behind]
  refine .mk ?_ ?_ ?_ ?_
  · exact fun member => noBrace ((stripLeft_sublist front).subset member)
  · exact fun member => openingLeft ((stripRight_sublist opening).subset member)
  · intro written writtenMember isClosing
    rcases Specifiers.mem_of_mem_sort writtenMember isClosing with isComma | ⟨line, member, inLine⟩
    · exact absurd isComma (by decide)
    · exact innerLeft line member inLine
  · exact fun member => closingFirst ((stripLeft_sublist closing).subset member)

end Braces

end Import.Statement

/-! ## Statements -/

namespace Import

theorem Statement.Braces.normalized_specifiers_eq
    {statement : Statement} {opening closing : Text} {inner : List Text}
    (braces : statement.Braces opening inner closing)
    (isBraced : statement.group = .multiLineBraced) :
    statement.normalized.specifiers =
      specifiersOf (stack (opening :: Specifiers.sort inner) closing) := by
  rw [(braces.normalized isBraced).specifiers_eq]
  simp only [specifiersOf, stack_cons, items_newline, items_stack, items_stripRight,
    items_stripLeft]

/-- A braced import of a run keeps its specifiers exactly when its lines are not put in
order, or when they are separated by commas and the same specifiers go over their first and
last line; the latter holds when nothing beside the braces goes on in them. -/
theorem specifiers_normalized_perm_iff
    (document : List Text) (start : Nat) {statement : Statement}
    (member : statement ∈ statements (runFrom document start))
    (isBraced : statement.group = .multiLineBraced) :
    (statement.normalized.specifiers.Perm statement.specifiers ↔
        Specifiers.obstacle? statement.innerLines ≠ none ∨
          Specifiers.Separated statement.innerLines ∧
            (Specifiers.edges statement.opening statement.innerLines statement.closing ++
                Specifiers.ends statement.normalized.innerLines).Perm
              (Specifiers.edges statement.opening statement.normalized.innerLines
                  statement.closing ++
                Specifiers.ends statement.innerLines)) ∧
      (Specifiers.ClosedOff statement.opening statement.innerLines statement.closing →
        (statement.normalized.specifiers.Perm statement.specifiers ↔
          Specifiers.obstacle? statement.innerLines ≠ none ∨
            Specifiers.Separated statement.innerLines)) := by
  obtain ⟨opening, inner, closing, braces⟩ :=
    (finished_of_mem_runFrom document start statement member).exists_braces isBraced
  rw [braces.specifiers_eq, braces.normalized_specifiers_eq isBraced, braces.opening_eq,
    braces.closing_eq, braces.innerLines_eq, (braces.normalized isBraced).innerLines_eq]
  by_cases obstacle : Specifiers.obstacle? inner = none
  · have kept := Specifiers.specifiersOf_sort_perm_iff obstacle opening closing
    have orderable : ¬ Specifiers.obstacle? inner ≠ none := fun blocked => blocked obstacle
    rw [or_iff_right orderable, or_iff_right orderable]
    refine ⟨kept, ?_⟩
    intro closedOff
    rw [kept, and_iff_left (Specifiers.edges_perm_of_closedOff obstacle closedOff)]
  · have same := Specifiers.specifiersOf_sort_of_obstacle obstacle opening closing
    rw [same]
    exact ⟨iff_of_true (List.Perm.refl _) (Or.inl obstacle),
      fun _ => iff_of_true (List.Perm.refl _) (Or.inl obstacle)⟩

/-- Specifiers beside the opening brace and above an empty line, and two on one line. -/
def separatedImport : Statement :=
  ⟨("import \x7b z," : Text),
    ["  b, c,", [], "  aaaa  as   x,", "  d", " \x7d from 'x'"]⟩

theorem specifiers_normalized_perm_separated :
    separatedImport.normalized.innerLines =
        (["  aaaa  as   x,", "  b, c,", "  d", []] : List Text) ∧
      separatedImport.specifiers =
        (["z", "b", "c", "aaaa as x", "d"] : List Text) ∧
      separatedImport.normalized.specifiers.Perm separatedImport.specifiers := by
  have cut : statements (runFrom separatedImport.lines 0) = [separatedImport] := by
    decide +kernel
  have member : separatedImport ∈ statements (runFrom separatedImport.lines 0) := by
    rw [cut]
    exact List.mem_cons_self
  have closedOff :
      Specifiers.ClosedOff separatedImport.opening separatedImport.innerLines
        separatedImport.closing :=
    ⟨Or.inr (by decide +kernel), Or.inr (Or.inl (by decide +kernel))⟩
  have separated : Specifiers.Separated separatedImport.innerLines := by
    unfold Specifiers.Separated
    decide +kernel
  have kept :=
    (specifiers_normalized_perm_iff separatedImport.lines 0 member (by decide +kernel)).2 closedOff
  refine ⟨?_, by decide +kernel, kept.mpr (Or.inr separated)⟩
  have isOrdered :
      Specifiers.longestFirst (["  b, c", [], "  aaaa  as   x", "  d"] : List Text) =
        (["  aaaa  as   x", "  b, c", "  d", []] : List Text) := by
    simp [Specifiers.longestFirst, List.mergeSort, Text.ofList]
  have isInner :
      Specifiers.sort separatedImport.innerLines =
        (["  aaaa  as   x,", "  b, c,", "  d", []] : List Text) :=
    Specifiers.sort_of_longestFirst separatedImport.innerLines (by decide +kernel) isOrdered
  rw [Statement.normalized_of_multiLineBraced rfl (by decide +kernel), isInner]
  rfl

/-- An import with a specifier that goes on over the end of a line. -/
def tornImport : Statement :=
  ⟨("import \x7b" : Text),
    ["  a as", "  bbbbbb,", "  c", "\x7d from 'x'"]⟩

/-- An import with a specifier that goes on behind the line of the opening brace. -/
def spilledImport : Statement :=
  ⟨("import \x7b a as" : Text), ["  b,", "  cccc", "\x7d from 'x'"]⟩

/-- The parts of such specifiers are moved on their own. -/
theorem specifiers_normalized_torn :
    (¬ ∀ (document : List Text) (start : Nat) (statement : Statement),
        statement ∈ statements (runFrom document start) →
          statement.group = .multiLineBraced →
            (∀ line ∈ statement.lines, Specifiers.hasComment line = false) →
              statement.normalized.specifiers.Perm statement.specifiers) ∧
      tornImport.specifiers = (["a as bbbbbb", "c"] : List Text) ∧
      tornImport.normalized.specifiers = (["bbbbbb", "a as", "c"] : List Text) ∧
      spilledImport.specifiers = (["a as b", "cccc"] : List Text) ∧
      spilledImport.normalized.specifiers = (["a as cccc", "b"] : List Text) := by
  have read : tornImport.specifiers = (["a as bbbbbb", "c"] : List Text) := by
    decide +kernel
  have written :
      tornImport.normalized.specifiers = (["bbbbbb", "a as", "c"] : List Text) := by
    have isOrdered :
        Specifiers.longestFirst (["  a as", "  bbbbbb", "  c"] : List Text) =
          (["  bbbbbb", "  a as", "  c"] : List Text) := by
      simp [Specifiers.longestFirst, List.mergeSort, Text.ofList]
    have isInner :
        Specifiers.sort tornImport.innerLines =
          (["  bbbbbb,", "  a as,", "  c"] : List Text) :=
      Specifiers.sort_of_longestFirst tornImport.innerLines (by decide +kernel) isOrdered
    rw [Statement.normalized_of_multiLineBraced rfl (by decide +kernel), isInner]
    decide +kernel
  have spilled :
      spilledImport.normalized.specifiers = (["a as cccc", "b"] : List Text) := by
    have isOrdered :
        Specifiers.longestFirst (["  b", "  cccc"] : List Text) =
          (["  cccc", "  b"] : List Text) := by
      simp [Specifiers.longestFirst, List.mergeSort, Text.ofList]
    have isInner :
        Specifiers.sort spilledImport.innerLines = (["  cccc,", "  b"] : List Text) :=
      Specifiers.sort_of_longestFirst spilledImport.innerLines (by decide +kernel) isOrdered
    rw [Statement.normalized_of_multiLineBraced rfl (by decide +kernel), isInner]
    decide +kernel
  refine ⟨?_, read, written, by decide +kernel, spilled⟩
  intro kept
  have cut : statements (runFrom tornImport.lines 0) = [tornImport] := by
    decide +kernel
  have same := kept tornImport.lines 0 tornImport (by rw [cut]; exact List.mem_cons_self)
    (by decide +kernel) (by decide +kernel)
  rw [read, written] at same
  exact absurd same.length_eq (by decide)

end Import

end Tidy
