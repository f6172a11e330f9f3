import Tidy.Import.Specifiers
import Tidy.Proofs.Search

/-!
# Ordered specifier lines

Ordering specifier lines keeps their number and all their characters but blanks
and commas.  Taking the commas off undoes putting them on, so lines in order stay
as they are, provided that no line ends with two commas when its last blanks are
taken off.
-/

namespace Tidy.Specifiers

open Text

/-- Whether a line ends with two commas, with or without blanks between them. -/
def DoublesComma (line : Text) : Prop :=
  ∃ front gap, line = front ++ ([','] : Text) ++ gap ++ ([','] : Text) ∧
    ∀ character ∈ gap, isBlank character = true

/-! ## Bare lines -/

theorem endsWith_iff
    (character : CodePoint) (text : Text) :
    endsWith character text = true ↔ ∃ front, text = front ++ [character] := by
  unfold endsWith
  rw [beq_iff_eq, List.getLast?_eq_some_iff]

theorem endsWith_append_self
    (text : Text) (character : CodePoint) :
    endsWith character (text ++ [character]) = true :=
  (endsWith_iff character _).mpr ⟨text, rfl⟩

theorem bare_of_comma
    {line front : Text}
    (ends : line.stripRight = front ++ ([','] : Text)) :
    bare line = front.stripRight := by
  unfold bare
  rw [ends]
  simp only [endsWith_append_self, if_true, List.dropLast_concat]

theorem bare_of_no_comma
    {line : Text}
    (noComma : ¬ endsWith ',' line.stripRight = true) :
    bare line = line.stripRight :=
  if_neg noComma

theorem endsTight_bare
    (line : Text) :
    EndsTight (bare line) := by
  by_cases ends : endsWith ',' line.stripRight = true
  · obtain ⟨front, shape⟩ := (endsWith_iff ',' _).mp ends
    rw [bare_of_comma shape]
    exact endsTight_stripRight front
  · rw [bare_of_no_comma ends]
    exact endsTight_stripRight line

/-- A line is its bare text followed by blanks and at most one comma. -/
theorem exists_bare_append
    (line : Text) :
    ∃ extra, line = bare line ++ extra ∧
      ∀ character ∈ extra, isBlank character = true ∨ character = ',' := by
  obtain ⟨blanks, split, allBlank⟩ := exists_stripRight_append line
  by_cases ends : endsWith ',' line.stripRight = true
  · obtain ⟨front, shape⟩ := (endsWith_iff ',' _).mp ends
    obtain ⟨gap, frontSplit, gapBlank⟩ := exists_stripRight_append front
    refine ⟨gap ++ ([','] : Text) ++ blanks, ?_, ?_⟩
    · rw [bare_of_comma shape, ← List.append_assoc, ← List.append_assoc, ← frontSplit, ← shape]
      exact split
    · intro character member
      rw [List.mem_append, List.mem_append, List.mem_singleton] at member
      rcases member with (inGap | isComma) | inBlanks
      · exact Or.inl (gapBlank character inGap)
      · exact Or.inr isComma
      · exact Or.inl (allBlank character inBlanks)
  · refine ⟨blanks, ?_, fun character member => Or.inl (allBlank character member)⟩
    rw [bare_of_no_comma ends]
    exact split

theorem bare_isPrefix
    (line : Text) :
    bare line <+: line := by
  obtain ⟨extra, split, _⟩ := exists_bare_append line
  exact ⟨extra, split.symm⟩

theorem endsTight_append_comma
    (line : Text) :
    EndsTight (line ++ ([','] : Text)) := by
  intro character isLast
  rw [List.getLast?_concat, Option.some.injEq] at isLast
  rw [← isLast]
  rfl

/-- A comma that is put on is taken off again. -/
theorem bare_append_comma
    {line : Text} (tight : EndsTight line) :
    bare (line ++ ([','] : Text)) = line := by
  have unchanged := stripRight_eq_self_of_endsTight (endsTight_append_comma line)
  rw [bare_of_comma unchanged, stripRight_eq_self_of_endsTight tight]

theorem bare_eq_self
    {line : Text}
    (tight : EndsTight line)
    (noComma : ¬ endsWith ',' line = true) :
    bare line = line := by
  have trimmed := stripRight_eq_self_of_endsTight tight
  rw [bare_of_no_comma (by rw [trimmed]; exact noComma), trimmed]

theorem doublesComma_iff
    (line : Text) :
    DoublesComma line ↔
      (endsWith ',' line && endsWith ',' (stripRight line.dropLast)) = true := by
  rw [Bool.and_eq_true]
  constructor
  · rintro ⟨front, gap, rfl, allBlank⟩
    refine ⟨endsWith_append_self _ ',', ?_⟩
    rw [List.dropLast_concat, stripRight_append_of_blank _ allBlank,
      stripRight_eq_self_of_endsTight (endsTight_append_comma front)]
    exact endsWith_append_self front ','
  · rintro ⟨ends, endsAgain⟩
    obtain ⟨inner, rfl⟩ := (endsWith_iff ',' line).mp ends
    rw [List.dropLast_concat] at endsAgain
    obtain ⟨front, shape⟩ := (endsWith_iff ',' _).mp endsAgain
    obtain ⟨gap, split, allBlank⟩ := exists_stripRight_append inner
    exact ⟨front, gap, by rw [← shape, ← split], allBlank⟩

instance (line : Text) : Decidable (DoublesComma line) :=
  decidable_of_iff' _ (doublesComma_iff line)

/-- Only a second comma can be left at the end of a bare line. -/
theorem not_endsWith_bare
    {line : Text} (single : ¬ DoublesComma line.stripRight) :
    ¬ endsWith ',' (bare line) = true := by
  intro endsAgain
  apply single
  by_cases ends : endsWith ',' line.stripRight = true
  · obtain ⟨front, shape⟩ := (endsWith_iff ',' _).mp ends
    obtain ⟨gap, frontSplit, gapBlank⟩ := exists_stripRight_append front
    rw [bare_of_comma shape] at endsAgain
    obtain ⟨inner, innerShape⟩ := (endsWith_iff ',' _).mp endsAgain
    refine ⟨inner, gap, ?_, gapBlank⟩
    rw [shape, ← innerShape, ← frontSplit]
  · rw [bare_of_no_comma ends] at endsAgain
    exact absurd endsAgain ends

/-! ## Commas put on -/

theorem attachCommas_cons
    (trailing : Bool) (line : Text) (rest : List Text) :
    attachCommas trailing (line :: rest) =
      (if !line.isEmptyLine && (trailing || rest.any fun later => !later.isEmptyLine) then
          line ++ ([','] : Text)
        else line) :: attachCommas trailing rest := by
  rw [attachCommas]
  split <;> rfl

@[simp]
theorem length_attachCommas
    (trailing : Bool) (lines : List Text) :
    (attachCommas trailing lines).length = lines.length := by
  induction lines with
  | nil =>
      rfl
  | cons line rest inductionHypothesis =>
      rw [attachCommas_cons, List.length_cons, List.length_cons, inductionHypothesis]

/-- A comma is only put behind a line that holds something. -/
theorem mem_attachCommas
    {trailing : Bool} {lines : List Text} {written : Text}
    (member : written ∈ attachCommas trailing lines) :
    ∃ line ∈ lines,
      written = line ∨ line.isEmptyLine = false ∧ written = line ++ ([','] : Text) := by
  induction lines with
  | nil =>
      cases member
  | cons line rest inductionHypothesis =>
      rw [attachCommas_cons] at member
      rcases List.mem_cons.mp member with isFirst | later
      · refine ⟨line, List.mem_cons_self, ?_⟩
        rw [isFirst]
        split
        · rename_i attached
          rw [Bool.and_eq_true, Bool.not_eq_true'] at attached
          exact Or.inr ⟨attached.1, rfl⟩
        · exact Or.inl rfl
      · obtain ⟨other, otherMember, shape⟩ := inductionHypothesis later
        exact ⟨other, List.mem_cons_of_mem line otherMember, shape⟩

theorem filter_flatten_attachCommas
    {keep : CodePoint → Bool} (noComma : keep ',' = false)
    (trailing : Bool) (lines : List Text) :
    (attachCommas trailing lines).flatten.filter keep = lines.flatten.filter keep := by
  induction lines with
  | nil =>
      rfl
  | cons line rest inductionHypothesis =>
      rw [attachCommas_cons, List.flatten_cons, List.flatten_cons, List.filter_append,
        List.filter_append, inductionHypothesis]
      split
      · simp [noComma]
      · rfl

/-- Lines that end in no comma of their own. -/
def Bare (lines : List Text) : Prop :=
  ∀ line ∈ lines, EndsTight line ∧ ¬ endsWith ',' line = true

theorem map_bare_attachCommas
    (trailing : Bool) {lines : List Text}
    (allBare : Bare lines) :
    (attachCommas trailing lines).map bare = lines := by
  induction lines with
  | nil =>
      rfl
  | cons line rest inductionHypothesis =>
      obtain ⟨tight, noComma⟩ := allBare line List.mem_cons_self
      rw [attachCommas_cons, List.map_cons,
        inductionHypothesis fun other member => allBare other (List.mem_cons_of_mem line member)]
      congr 1
      split
      · exact bare_append_comma tight
      · exact bare_eq_self tight noComma

/-- Without a line that holds something no comma is put on. -/
theorem attachCommas_of_empty
    (trailing : Bool) {lines : List Text}
    (allEmpty : ∀ line ∈ lines, line.isEmptyLine = true) :
    attachCommas trailing lines = lines := by
  induction lines with
  | nil =>
      rfl
  | cons line rest inductionHypothesis =>
      rw [attachCommas_cons, allEmpty line List.mem_cons_self,
        inductionHypothesis fun other member => allEmpty other (List.mem_cons_of_mem line member)]
      rfl

theorem endsWithComma_cons_of_later
    (line : Text) {rest : List Text}
    (later : ∃ other ∈ rest, (bare other).isEmptyLine = false) :
    endsWithComma (line :: rest) = endsWithComma rest := by
  obtain ⟨other, member, filled⟩ := later
  have notNil : rest.filter (fun text => !(bare text).isEmptyLine) ≠ [] := by
    intro nothing
    have kept := List.filter_eq_nil_iff.mp nothing other member
    simp [filled] at kept
  obtain ⟨first, others, shape⟩ := List.exists_cons_of_ne_nil notNil
  unfold endsWithComma
  rw [List.filter_cons, shape]
  cases (bare line).isEmptyLine with
  | true =>
      rfl
  | false =>
      rw [Bool.not_false, if_pos rfl, List.getLast?_cons_cons]

theorem endsWithComma_cons_of_last
    {line : Text} {rest : List Text}
    (filled : (bare line).isEmptyLine = false)
    (nothingLater : ∀ other ∈ rest, (bare other).isEmptyLine = true) :
    endsWithComma (line :: rest) = endsWith ',' line.stripRight := by
  have nothing : rest.filter (fun text => !(bare text).isEmptyLine) = [] := by
    rw [List.filter_eq_nil_iff]
    intro other member
    simp [nothingLater other member]
  unfold endsWithComma
  rw [List.filter_cons, nothing, filled]
  rfl

theorem forall_isEmptyLine
    {lines : List Text}
    (noneFilled : ¬ ∃ line ∈ lines, line.isEmptyLine = false) :
    ∀ line ∈ lines, line.isEmptyLine = true := by
  intro line member
  by_cases empty : line.isEmptyLine = true
  · exact empty
  · exact absurd ⟨line, member, Bool.eq_false_iff.mpr empty⟩ noneFilled

/-- The last line that holds something shows whether a comma was put behind it. -/
theorem endsWithComma_attachCommas_last
    (trailing : Bool) {line : Text} {rest : List Text}
    (allBare : Bare (line :: rest))
    (filled : line.isEmptyLine = false)
    (restEmpty : ∀ other ∈ rest, other.isEmptyLine = true) :
    endsWithComma (attachCommas trailing (line :: rest)) = trailing := by
  obtain ⟨⟨tight, noComma⟩, restBare⟩ := List.forall_mem_cons.mp allBare
  have nothingLater :
      ∀ other ∈ attachCommas trailing rest, (bare other).isEmptyLine = true := by
    intro other member
    apply restEmpty
    rw [← map_bare_attachCommas trailing restBare]
    exact List.mem_map_of_mem member
  have noneLater : (rest.any fun other => !other.isEmptyLine) = false := by
    rw [List.any_eq_false]
    intro other member
    simp [restEmpty other member]
  rw [attachCommas_cons, filled, noneLater]
  cases trailing with
  | true =>
      have attached := bare_append_comma tight
      have unchanged := stripRight_eq_self_of_endsTight (endsTight_append_comma line)
      simp only [Bool.not_false, Bool.true_or, Bool.and_true, if_true]
      rw [endsWithComma_cons_of_last (by rw [attached]; exact filled) nothingLater, unchanged]
      exact endsWith_append_self line ','
  | false =>
      have kept := bare_eq_self tight noComma
      have unchanged := stripRight_eq_self_of_endsTight tight
      simp only [Bool.or_false, Bool.and_false, Bool.false_eq_true, if_false]
      rw [endsWithComma_cons_of_last (by rw [kept]; exact filled) nothingLater, unchanged]
      exact Bool.eq_false_iff.mpr noComma

/-- The last comma tells whether it was asked for. -/
theorem endsWithComma_attachCommas
    (trailing : Bool) {lines : List Text}
    (allBare : Bare lines)
    (filled : ∃ line ∈ lines, line.isEmptyLine = false) :
    endsWithComma (attachCommas trailing lines) = trailing := by
  induction lines with
  | nil =>
      obtain ⟨_, member, _⟩ := filled
      cases member
  | cons line rest inductionHypothesis =>
      have restBare : Bare rest := (List.forall_mem_cons.mp allBare).2
      by_cases later : ∃ other ∈ rest, other.isEmptyLine = false
      · rw [attachCommas_cons, endsWithComma_cons_of_later, inductionHypothesis restBare later]
        obtain ⟨other, member, otherFilled⟩ := later
        rw [← map_bare_attachCommas trailing restBare] at member
        obtain ⟨written, writtenMember, isBare⟩ := List.mem_map.mp member
        exact ⟨written, writtenMember, by rw [isBare]; exact otherFilled⟩
      · have lineFilled : line.isEmptyLine = false := by
          obtain ⟨other, member, otherFilled⟩ := filled
          rcases List.mem_cons.mp member with isLine | inRest
          · rw [← isLine]
            exact otherFilled
          · exact absurd ⟨other, inRest, otherFilled⟩ later
        exact endsWithComma_attachCommas_last trailing allBare lineFilled
          (forall_isEmptyLine later)

/-! ## What keeps lines from being ordered -/

theorem hasComment_append
    (text : Text) {extra : Text}
    (noSign : ∀ character ∈ extra, character ≠ '/' ∧ character ≠ '*') :
    hasComment (text ++ extra) = hasComment text := by
  have noSlash : CodePoint.scalar '/' ∉ extra := fun member => (noSign '/' member).1 rfl
  have noStar : CodePoint.scalar '*' ∉ extra := fun member => (noSign '*' member).2 rfl
  unfold hasComment
  rw [show (['/', '/'] : Text) = (['/'] : Text) ++ (['/'] : Text) from rfl,
    includes_append_iff noSlash,
    show (['/', '*'] : Text) = (['/'] : Text) ++ (['*'] : Text) from rfl,
    includes_append_iff noStar]

theorem hasLeadingComma_iff
    (line : Text) :
    hasLeadingComma line = true ↔
      (line.find? fun character => !isBlank character) = some (CodePoint.scalar ',') := by
  unfold hasLeadingComma
  rw [← head?_strip]
  cases line.strip with
  | nil =>
      simp
  | cons first rest =>
      simp only [List.isPrefixOf, Bool.and_true, beq_iff_eq, List.head?_cons, Option.some.injEq]
      exact eq_comm

/-- Blanks and commas at the end make no comment. -/
theorem hasComment_of_split
    {text extra line : Text}
    (split : line = text ++ extra)
    (onlyEnds : ∀ character ∈ extra, isBlank character = true ∨ character = ',') :
    hasComment line = hasComment text := by
  rw [split]
  apply hasComment_append
  intro character member
  constructor
  · intro isSlash
    rcases onlyEnds character member with blank | isComma
    · rw [isSlash] at blank
      exact absurd blank (by decide)
    · rw [isSlash] at isComma
      exact absurd isComma (by decide)
  · intro isStar
    rcases onlyEnds character member with blank | isComma
    · rw [isStar] at blank
      exact absurd blank (by decide)
    · rw [isStar] at isComma
      exact absurd isComma (by decide)

theorem hasComment_stripRight
    (line : Text) :
    hasComment line.stripRight = hasComment line := by
  obtain ⟨blanks, split, allBlank⟩ := exists_stripRight_append line
  exact (hasComment_of_split split fun character member =>
    Or.inl (allBlank character member)).symm

theorem hasComment_bare
    (line : Text) :
    hasComment (bare line) = hasComment line := by
  obtain ⟨extra, split, onlyEnds⟩ := exists_bare_append line
  exact (hasComment_of_split split onlyEnds).symm

theorem hasComment_append_comma
    (line : Text) :
    hasComment (line ++ ([','] : Text)) = hasComment line :=
  hasComment_of_split rfl (by simp)

theorem hasLeadingComma_stripRight
    (line : Text) :
    hasLeadingComma line.stripRight = hasLeadingComma line := by
  obtain ⟨blanks, split, allBlank⟩ := exists_stripRight_append line
  have nothing : (blanks.find? fun character => !isBlank character) = none := by
    rw [List.find?_eq_none]
    intro character member
    simp [allBlank character member]
  rw [Bool.eq_iff_iff, hasLeadingComma_iff, hasLeadingComma_iff]
  conv => rhs; rw [split, List.find?_append, nothing, Option.or_none]

theorem obstacle?_eq_none_iff
    (lines : List Text) :
    obstacle? lines = none ↔
      ∀ line ∈ lines, hasComment line = false ∧ hasLeadingComma line = false := by
  unfold obstacle?
  constructor
  · intro noObstacle line member
    split at noObstacle
    · cases noObstacle
    · rename_i noComment
      split at noObstacle
      · cases noObstacle
      · rename_i noLeading
        rw [Bool.not_eq_true, List.any_eq_false] at noComment noLeading
        exact ⟨Bool.eq_false_iff.mpr (noComment line member),
          Bool.eq_false_iff.mpr (noLeading line member)⟩
  · intro free
    have noComment : lines.any hasComment = false := by
      rw [List.any_eq_false]
      exact fun line member => Bool.eq_false_iff.mp (free line member).1
    have noLeading : lines.any hasLeadingComma = false := by
      rw [List.any_eq_false]
      exact fun line member => Bool.eq_false_iff.mp (free line member).2
    rw [noComment, noLeading]
    rfl

theorem obstacle?_map_stripRight
    (lines : List Text) :
    obstacle? (lines.map stripRight) = obstacle? lines := by
  unfold obstacle?
  simp only [List.any_map, Function.comp_def, hasComment_stripRight, hasLeadingComma_stripRight]

/-- A bare line starts with a comma only if the line does. -/
theorem hasLeadingComma_bare
    {line : Text} (free : hasLeadingComma line = false) :
    hasLeadingComma (bare line) = false := by
  rw [Bool.eq_false_iff, ne_eq, hasLeadingComma_iff] at free ⊢
  intro leads
  obtain ⟨extra, split, _⟩ := exists_bare_append line
  apply free
  rw [split, List.find?_append, leads]
  rfl

/-- A comma behind a line that holds something is not its first character. -/
theorem hasLeadingComma_append_comma
    {line : Text}
    (filled : line.isEmptyLine = false)
    (free : hasLeadingComma line = false) :
    hasLeadingComma (line ++ ([','] : Text)) = false := by
  rw [Bool.eq_false_iff, ne_eq, hasLeadingComma_iff] at free ⊢
  have found : (line.find? fun character => !isBlank character).isSome = true := by
    unfold isEmptyLine at filled
    obtain ⟨character, member, notBlank⟩ := List.all_eq_false.mp filled
    rw [List.find?_isSome]
    exact ⟨character, member, by simpa using notBlank⟩
  intro leads
  rw [List.find?_append, Option.or_of_isSome found] at leads
  exact free leads

/-! ## Ordering -/

@[simp]
theorem length_sort
    (lines : List Text) :
    (sort lines).length = lines.length := by
  unfold sort
  split
  · exact List.length_map ..
  · rw [length_attachCommas, longestFirst, List.length_mergeSort, List.length_map]

theorem longestFirst_perm
    (texts : List Text) :
    (longestFirst texts).Perm texts :=
  List.mergeSort_perm ..

/-- Ordering by a key, the greatest first, leaves nothing to order. -/
theorem mergeSort_mergeSort_of_key
    {Item : Type} (key : Item → Nat) (items : List Item) :
    ((items.mergeSort fun left right => decide (key right ≤ key left)).mergeSort
        fun left right => decide (key right ≤ key left)) =
      items.mergeSort fun left right => decide (key right ≤ key left) := by
  apply List.mergeSort_of_pairwise
  apply List.pairwise_mergeSort
  · intro first second third firstStep secondStep
    simp only [decide_eq_true_eq] at firstStep secondStep ⊢
    omega
  · intro left right
    simp only [Bool.or_eq_true, decide_eq_true_eq]
    omega

theorem longestFirst_longestFirst
    (texts : List Text) :
    longestFirst (longestFirst texts) = longestFirst texts :=
  mergeSort_mergeSort_of_key List.length texts

theorem sort_of_noObstacle
    {lines : List Text}
    (noObstacle : obstacle? lines = none) :
    sort lines = attachCommas (endsWithComma lines) (longestFirst (lines.map bare)) := by
  rw [sort, noObstacle]

theorem sort_of_longestFirst
    (lines : List Text) {ordered : List Text}
    (noObstacle : obstacle? lines = none)
    (isOrdered : longestFirst (lines.map bare) = ordered) :
    sort lines = attachCommas (endsWithComma lines) ordered := by
  rw [sort_of_noObstacle noObstacle, isOrdered]

/-- Where a line that was written comes from. -/
theorem mem_sort
    {lines : List Text} {written : Text}
    (member : written ∈ sort lines) :
    ∃ line ∈ lines,
      written = line.stripRight ∨ written = bare line ∨ written = bare line ++ ([','] : Text) := by
  unfold sort at member
  split at member
  · obtain ⟨line, lineMember, rfl⟩ := List.mem_map.mp member
    exact ⟨line, lineMember, Or.inl rfl⟩
  · obtain ⟨text, textMember, shape⟩ := mem_attachCommas member
    obtain ⟨line, lineMember, rfl⟩ := List.mem_map.mp ((longestFirst_perm _).mem_iff.mp textMember)
    rcases shape with same | ⟨_, attached⟩
    · exact ⟨line, lineMember, Or.inr (Or.inl same)⟩
    · exact ⟨line, lineMember, Or.inr (Or.inr attached)⟩

theorem endsTight_of_mem_sort
    {lines : List Text} {written : Text}
    (member : written ∈ sort lines) :
    EndsTight written := by
  obtain ⟨line, _, rfl | rfl | rfl⟩ := mem_sort member
  · exact endsTight_stripRight line
  · exact endsTight_bare line
  · exact endsTight_append_comma (bare line)

/-- Ordered lines hold commas and characters of the lines. -/
theorem mem_of_mem_sort
    {lines : List Text} {written : Text} {character : CodePoint}
    (member : written ∈ sort lines)
    (inWritten : character ∈ written) :
    character = ',' ∨ ∃ line ∈ lines, character ∈ line := by
  obtain ⟨line, lineMember, rfl | rfl | rfl⟩ := mem_sort member
  · exact Or.inr ⟨line, lineMember, (stripRight_sublist line).subset inWritten⟩
  · exact Or.inr ⟨line, lineMember, (bare_isPrefix line).subset inWritten⟩
  · rcases List.mem_append.mp inWritten with inBare | isComma
    · exact Or.inr ⟨line, lineMember, (bare_isPrefix line).subset inBare⟩
    · exact Or.inl (List.mem_singleton.mp isComma)

/-- Taking the comma off loses blanks and commas only. -/
theorem filter_bare
    {keep : CodePoint → Bool}
    (refuses : RefusesBlanks keep)
    (noComma : keep ',' = false)
    (line : Text) :
    (bare line).filter keep = line.filter keep := by
  obtain ⟨extra, split, onlyEnds⟩ := exists_bare_append line
  have nothing : extra.filter keep = [] := by
    rw [List.filter_eq_nil_iff]
    intro character member
    rcases onlyEnds character member with blank | isComma
    · rw [refuses character blank]
      exact Bool.false_ne_true
    · rw [isComma, noComma]
      exact Bool.false_ne_true
  conv => rhs; rw [split, List.filter_append, nothing, List.append_nil]

/-- Ordering loses and gains blanks and commas only. -/
theorem filter_flatten_sort
    {keep : CodePoint → Bool}
    (refuses : RefusesBlanks keep)
    (noComma : keep ',' = false)
    (lines : List Text) :
    ((sort lines).flatten.filter keep).Perm (lines.flatten.filter keep) := by
  unfold sort
  split
  · apply List.Perm.of_eq
    simp only [List.filter_flatten, List.map_map, Function.comp_def, filter_stripRight refuses]
  · rw [filter_flatten_attachCommas noComma]
    refine ((longestFirst_perm _).flatten.filter keep).trans (List.Perm.of_eq ?_)
    simp only [List.filter_flatten, List.map_map, Function.comp_def,
      filter_bare refuses noComma]

/-- Lines that can be ordered can be ordered again. -/
theorem obstacle?_attachCommas
    {lines texts : List Text}
    (noObstacle : obstacle? lines = none)
    (fromLine : ∀ text ∈ texts, ∃ line ∈ lines, bare line = text)
    (trailing : Bool) :
    obstacle? (attachCommas trailing texts) = none := by
  have free := (obstacle?_eq_none_iff lines).mp noObstacle
  rw [obstacle?_eq_none_iff]
  intro written member
  obtain ⟨text, textMember, shape⟩ := mem_attachCommas member
  obtain ⟨line, lineMember, rfl⟩ := fromLine text textMember
  obtain ⟨noComment, noLeading⟩ := free line lineMember
  have bareComment := (hasComment_bare line).trans noComment
  have bareLeading := hasLeadingComma_bare noLeading
  rcases shape with rfl | ⟨filled, rfl⟩
  · exact ⟨bareComment, bareLeading⟩
  · exact ⟨(hasComment_append_comma _).trans bareComment,
      hasLeadingComma_append_comma filled bareLeading⟩

/-- The comma of the last specifier is found where it was put. -/
theorem attachCommas_endsWithComma
    (trailing : Bool) {lines : List Text}
    (allBare : Bare lines) :
    attachCommas (endsWithComma (attachCommas trailing lines)) lines =
      attachCommas trailing lines := by
  by_cases filled : ∃ line ∈ lines, line.isEmptyLine = false
  · rw [endsWithComma_attachCommas trailing allBare filled]
  · have allEmpty := forall_isEmptyLine filled
    rw [attachCommas_of_empty _ allEmpty, attachCommas_of_empty _ allEmpty]

/-- Ordered lines are in order. -/
theorem sort_sort
    {lines : List Text}
    (single : ∀ line ∈ lines, ¬ DoublesComma line.stripRight) :
    sort (sort lines) = sort lines := by
  cases obstacle : obstacle? lines with
  | some reason =>
      have kept : sort lines = lines.map stripRight := by
        rw [sort, obstacle]
      rw [kept, sort, obstacle?_map_stripRight, obstacle]
      simp
  | none =>
      let ordered := longestFirst (lines.map bare)
      have written : sort lines = attachCommas (endsWithComma lines) ordered :=
        sort_of_noObstacle obstacle
      have fromLine : ∀ text ∈ ordered, ∃ line ∈ lines, bare line = text := fun text member =>
        List.mem_map.mp ((longestFirst_perm _).mem_iff.mp member)
      have allBare : Bare ordered := by
        intro text member
        obtain ⟨line, lineMember, rfl⟩ := fromLine text member
        exact ⟨endsTight_bare line, not_endsWith_bare (single line lineMember)⟩
      have sameOrder : longestFirst ordered = ordered := longestFirst_longestFirst _
      rw [written, sort, obstacle?_attachCommas obstacle fromLine]
      simp only [map_bare_attachCommas _ allBare, sameOrder]
      exact attachCommas_endsWithComma _ allBare

end Tidy.Specifiers
