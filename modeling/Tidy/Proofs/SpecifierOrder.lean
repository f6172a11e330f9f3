import Tidy.Proofs.RunOrder
import Tidy.Proofs.SpecifierLines

/-!
# The order of specifier lines

Specifier lines are put in order without their commas: one stable sort by length, the longest
first, which leaves the empty lines behind all others.  The commas are then put behind every
line that holds something but the last one, and behind that one if the last such line had one
before.  The number of commas stays the same exactly when every line that holds something,
but the last one, ended with a comma.
-/

namespace Tidy

theorem Text.eq_nil_of_isEmptyLine
    {text : Text}
    (tight : EndsTight text)
    (isEmpty : text.isEmptyLine = true) :
    text = [] := by
  rcases List.eq_nil_or_concat text with rfl | ⟨front, last, rfl⟩
  · rfl
  · rw [List.concat_eq_append] at tight isEmpty
    have isBlankLast := List.all_eq_true.mp isEmpty last (by simp)
    rw [tight last List.getLast?_concat] at isBlankLast
    cases isBlankLast

namespace Specifiers

open Text

/-! ## One stable sort -/

/-- Texts in order of their length, the longest first, those of one length in the order
in which they were given. -/
structure LongestFirst (texts ordered : List Text) : Prop where
  permuted : ordered.Perm texts
  falling : ordered.Pairwise fun left right => right.length ≤ left.length
  stable : ∀ length,
    (ordered.filter fun text => text.length == length) =
      texts.filter fun text => text.length == length

theorem longestFirst_spec
    (texts : List Text) :
    LongestFirst texts (longestFirst texts) where
  permuted := longestFirst_perm texts
  falling := Import.pairwise_greatestFirst List.length texts
  stable := Import.filter_greatestFirst List.length texts

/-- Where lengths fall, the empty texts come last. -/
theorem eq_filledLines_append
    {texts : List Text}
    (falling : texts.Pairwise fun left right => right.length ≤ left.length)
    (tight : ∀ text ∈ texts, EndsTight text) :
    ∃ empty, texts = filledLines texts ++ empty ∧ ∀ text ∈ empty, text = [] := by
  induction texts with
  | nil =>
      exact ⟨[], rfl, by simp⟩
  | cons text rest inductionHypothesis =>
      obtain ⟨shorter, restFalling⟩ := List.pairwise_cons.mp falling
      obtain ⟨textTight, restTight⟩ := List.forall_mem_cons.mp tight
      cases isEmpty : text.isEmptyLine with
      | true =>
          have isNil := eq_nil_of_isEmptyLine textTight isEmpty
          have allNil : ∀ other ∈ text :: rest, other = [] := by
            refine List.forall_mem_cons.mpr ⟨isNil, ?_⟩
            intro other member
            have noLonger := shorter other member
            rw [isNil, List.length_nil] at noLonger
            exact List.length_eq_zero_iff.mp (Nat.le_zero.mp noLonger)
          have noneFilled : filledLines (text :: rest) = [] := by
            rw [filledLines, List.filter_eq_nil_iff]
            intro other member
            rw [allNil other member]
            exact Bool.false_ne_true
          exact ⟨text :: rest, by rw [noneFilled, List.nil_append], allNil⟩
      | false =>
          obtain ⟨empty, split, allNil⟩ := inductionHypothesis restFalling restTight
          have kept : filledLines (text :: rest) = text :: filledLines rest :=
            List.filter_cons_of_pos (by simp [isEmpty])
          exact ⟨empty, by rw [kept, List.cons_append, ← split], allNil⟩

/-! ## Commas behind ordered texts -/

/-- A comma behind every text but the last one, and behind that one if it is asked for. -/
def punctuated (trailing : Bool) (texts : List Text) : List Text :=
  texts.dropLast.map (· ++ ([','] : Text)) ++
    texts.getLast?.toList.map fun last => if trailing then last ++ ([','] : Text) else last

theorem punctuated_concat
    (trailing : Bool) (front : List Text) (last : Text) :
    punctuated trailing (front ++ [last]) =
      front.map (· ++ ([','] : Text)) ++ [if trailing then last ++ ([','] : Text) else last] := by
  rw [punctuated, List.dropLast_concat, List.getLast?_concat]
  rfl

theorem attachCommas_filled
    (trailing : Bool) {texts : List Text}
    (filled : ∀ text ∈ texts, text.isEmptyLine = false) :
    attachCommas trailing texts = punctuated trailing texts := by
  induction texts with
  | nil =>
      rfl
  | cons text rest inductionHypothesis =>
      obtain ⟨textFilled, restFilled⟩ := List.forall_mem_cons.mp filled
      rw [attachCommas_cons, inductionHypothesis restFilled, textFilled]
      cases rest with
      | nil =>
          simp [punctuated]
      | cons next later =>
          have nextFilled := restFilled next List.mem_cons_self
          simp [punctuated, nextFilled]

/-- No comma is put behind the empty lines at the end. -/
theorem attachCommas_append_empty
    (trailing : Bool) (texts : List Text) {empty : List Text}
    (allNil : ∀ text ∈ empty, text = []) :
    attachCommas trailing (texts ++ empty) = attachCommas trailing texts ++ empty := by
  have allEmpty : ∀ text ∈ empty, text.isEmptyLine = true := by
    intro text member
    rw [allNil text member]
    rfl
  have noneFilled : (empty.any fun later => !later.isEmptyLine) = false := by
    rw [List.any_eq_false]
    intro text member
    simp [allEmpty text member]
  induction texts with
  | nil =>
      exact attachCommas_of_empty trailing allEmpty
  | cons text rest inductionHypothesis =>
      rw [List.cons_append, attachCommas_cons, attachCommas_cons, inductionHypothesis,
        List.any_append, noneFilled, Bool.or_false, List.cons_append]

/-! ## The number of commas -/

def commas (lines : List Text) : Nat :=
  lines.flatten.count (CodePoint.scalar ',')

theorem commas_cons
    (line : Text) (rest : List Text) :
    commas (line :: rest) = line.count (CodePoint.scalar ',') + commas rest := by
  rw [commas, List.flatten_cons, List.count_append]
  rfl

theorem count_stripRight
    (line : Text) :
    line.stripRight.count (CodePoint.scalar ',') = line.count (CodePoint.scalar ',') := by
  obtain ⟨blanks, split, allBlank⟩ := exists_stripRight_append line
  have noComma : CodePoint.scalar ',' ∉ blanks := by
    intro member
    exact absurd (allBlank ',' member) (by decide)
  conv => rhs; rw [split, List.count_append, List.count_eq_zero_of_not_mem noComma, Nat.add_zero]

theorem count_bare
    (line : Text) :
    line.count (CodePoint.scalar ',') =
      (bare line).count (CodePoint.scalar ',') + (endsWith ',' line.stripRight).toNat := by
  by_cases ends : endsWith ',' line.stripRight = true
  · obtain ⟨front, shape⟩ := (endsWith_iff ',' _).mp ends
    rw [bare_of_comma shape, count_stripRight, ends, ← count_stripRight line, shape,
      List.count_append]
    rfl
  · rw [bare_of_no_comma ends, count_stripRight, Bool.eq_false_iff.mpr ends]
    rfl

theorem commas_eq
    (lines : List Text) :
    commas lines =
      commas (lines.map bare) + lines.countP fun line => endsWith ',' line.stripRight := by
  induction lines with
  | nil =>
      rfl
  | cons line rest inductionHypothesis =>
      have behind :
          (if endsWith ',' line.stripRight = true then 1 else 0) =
            (endsWith ',' line.stripRight).toNat := by
        cases endsWith ',' line.stripRight <;> rfl
      rw [List.map_cons, commas_cons, commas_cons, List.countP_cons, behind, count_bare line,
        inductionHypothesis]
      omega

theorem commas_append
    (front rest : List Text) :
    commas (front ++ rest) = commas front + commas rest := by
  rw [commas, List.flatten_append, List.count_append]
  rfl

theorem commas_of_nil
    {lines : List Text}
    (allNil : ∀ line ∈ lines, line = []) :
    commas lines = 0 := by
  rw [commas, List.flatten_eq_nil_iff.mpr allNil]
  rfl

theorem commas_map_append_comma
    (lines : List Text) :
    commas (lines.map (· ++ ([','] : Text))) = commas lines + lines.length := by
  induction lines with
  | nil =>
      rfl
  | cons line rest inductionHypothesis =>
      rw [List.map_cons, commas_cons, commas_cons, inductionHypothesis, List.count_append,
        List.count_singleton_self, List.length_cons]
      omega

theorem commas_punctuated
    {trailing : Bool} {texts : List Text}
    (asked : trailing = true → texts ≠ []) :
    commas (punctuated trailing texts) =
      commas texts + texts.dropLast.length + trailing.toNat := by
  rcases List.eq_nil_or_concat texts with rfl | ⟨front, last, rfl⟩
  · cases trailing with
    | false =>
        rfl
    | true =>
        exact absurd rfl (asked rfl)
  · have behindLast :
        commas [if trailing then last ++ ([','] : Text) else last] =
          commas [last] + trailing.toNat := by
      cases trailing <;> simp [commas]
    rw [List.concat_eq_append, punctuated_concat, commas_append, commas_append,
      commas_map_append_comma, behindLast, List.dropLast_concat]
    omega

theorem countP_filledLines
    (lines : List Text) :
    ((filledLines lines).countP fun line => endsWith ',' line.stripRight) =
      lines.countP fun line => endsWith ',' line.stripRight := by
  rw [filledLines, List.countP_filter]
  apply List.countP_congr
  intro line _
  rw [Bool.and_eq_true, and_iff_left_iff_imp]
  intro ends
  obtain ⟨front, shape⟩ := (endsWith_iff ',' _).mp ends
  have inLine : CodePoint.scalar ',' ∈ line :=
    (stripRight_sublist line).subset (by rw [shape]; simp)
  rw [Bool.not_eq_true', isEmptyLine, List.all_eq_false]
  exact ⟨',', inLine, by decide⟩

/-- The commas of lines are those of their bare texts, those between the lines and the one
behind the last line. -/
theorem commas_eq_ends
    (lines : List Text) :
    commas lines =
      commas (lines.map bare) +
        ((filledLines lines).dropLast.countP fun line => endsWith ',' line.stripRight) +
        (endsWith ',' (lastLine lines).stripRight).toNat := by
  rw [commas_eq, ← countP_filledLines, lastLine]
  rcases List.eq_nil_or_concat (filledLines lines) with noLine | ⟨front, last, shape⟩
  · rw [noLine]
    rfl
  · rw [shape, List.concat_eq_append, List.dropLast_concat, List.getLast?_concat,
      List.countP_append, List.countP_singleton, Option.getD_some]
    cases endsWith ',' last.stripRight <;> simp [Nat.add_assoc]

/-! ## Ordered lines -/

section Ordered

variable {lines : List Text}

theorem endsWith_lastLine_of_noLine
    (noLine : filledLines lines = []) :
    endsWith ',' (lastLine lines).stripRight = false := by
  rw [lastLine, noLine]
  rfl

theorem endsWithComma_eq_lastLine
    (noObstacle : obstacle? lines = none) :
    endsWithComma lines = endsWith ',' (lastLine lines).stripRight := by
  cases isLast : (filledLines lines).getLast? with
  | some last =>
      rw [endsWithComma_eq noObstacle isLast, lastLine, isLast]
      rfl
  | none =>
      have noLine := List.getLast?_eq_none_iff.mp isLast
      have noBare : (lines.filter fun line => !(bare line).isEmptyLine) = [] := by
        have sameLines := filledLines_map_bare noObstacle
        rw [noLine, List.map_nil, filledLines, List.filter_map,
          List.map_eq_nil_iff] at sameLines
        exact sameLines
      rw [endsWith_lastLine_of_noLine noLine, endsWithComma, noBare]
      rfl

theorem length_filledLines_longestFirst
    (noObstacle : obstacle? lines = none) :
    (filledLines (longestFirst (lines.map bare))).length = (filledLines lines).length := by
  have reordered :
      (filledLines (longestFirst (lines.map bare))).Perm (filledLines (lines.map bare)) :=
    (longestFirst_perm _).filter _
  rw [reordered.length_eq, filledLines_map_bare noObstacle, List.length_map]

/-- Lines in order are the bare texts that hold something, with their commas, and then
the empty ones. -/
theorem exists_sort_eq
    (noObstacle : obstacle? lines = none) :
    ∃ empty,
      longestFirst (lines.map bare) = filledLines (longestFirst (lines.map bare)) ++ empty ∧
        (∀ text ∈ empty, text = []) ∧
        sort lines =
          punctuated (endsWith ',' (lastLine lines).stripRight)
            (filledLines (longestFirst (lines.map bare))) ++ empty := by
  have tight : ∀ text ∈ longestFirst (lines.map bare), EndsTight text := by
    intro text member
    obtain ⟨line, _, rfl⟩ := List.mem_map.mp ((longestFirst_perm _).mem_iff.mp member)
    exact endsTight_bare line
  obtain ⟨empty, split, allNil⟩ :=
    eq_filledLines_append (longestFirst_spec (lines.map bare)).falling tight
  refine ⟨empty, split, allNil, ?_⟩
  conv => lhs; rw [sort_of_noObstacle noObstacle, split]
  rw [attachCommas_append_empty _ _ allNil, attachCommas_filled _ fun _ => filled_of_mem,
    endsWithComma_eq_lastLine noObstacle]

theorem commas_sort
    (noObstacle : obstacle? lines = none) :
    commas (sort lines) =
      commas (lines.map bare) + (filledLines lines).dropLast.length +
        (endsWith ',' (lastLine lines).stripRight).toNat := by
  obtain ⟨empty, split, allNil, isSorted⟩ := exists_sort_eq noObstacle
  have sameLength := length_filledLines_longestFirst noObstacle
  have asked :
      endsWith ',' (lastLine lines).stripRight = true →
        filledLines (longestFirst (lines.map bare)) ≠ [] := by
    intro ends noText
    rw [noText, List.length_nil] at sameLength
    have noLine := List.length_eq_zero_iff.mp sameLength.symm
    rw [endsWith_lastLine_of_noLine noLine] at ends
    cases ends
  have sameCommas :
      commas (filledLines (longestFirst (lines.map bare))) = commas (lines.map bare) := by
    have reordered : commas (longestFirst (lines.map bare)) = commas (lines.map bare) :=
      (longestFirst_perm _).flatten.count_eq ','
    rw [split, commas_append, commas_of_nil allNil] at reordered
    exact reordered
  rw [isSorted, commas_append, commas_of_nil allNil, commas_punctuated asked, sameCommas,
    List.length_dropLast, List.length_dropLast, sameLength, Nat.add_zero]

/-- The number of commas is kept exactly when no line lacked the one behind it. -/
theorem commas_sort_iff
    (noObstacle : obstacle? lines = none) :
    commas (sort lines) = commas lines ↔ Separated lines := by
  rw [commas_sort noObstacle, commas_eq_ends lines, Nat.add_right_cancel_iff,
    Nat.add_left_cancel_iff, eq_comm, List.countP_eq_length]
  rfl

end Ordered

/-- Lines without comments and leading commas are put in order by one stable sort of their
bare texts by length, which leaves the empty ones behind all others.  A comma is put behind
every text that holds something but the last one, behind that one exactly when the last such
line had one, and behind no empty one.  The number of commas is kept exactly when every line
that holds something, but the last one, ended with one. -/
theorem sort_longestFirst_punctuated
    {lines : List Text}
    (orderable : ∀ line ∈ lines, hasComment line = false ∧ hasLeadingComma line = false) :
    (sort lines).length = lines.length ∧
      (∃ filled empty,
        LongestFirst (lines.map bare) (filled ++ empty) ∧
          (∀ text ∈ filled, text.isEmptyLine = false) ∧
          (∀ text ∈ empty, text = []) ∧
          sort lines = punctuated (endsWith ',' (lastLine lines).stripRight) filled ++ empty) ∧
      (commas (sort lines) = commas lines ↔ Separated lines) := by
  have noObstacle := (obstacle?_eq_none_iff lines).mpr orderable
  obtain ⟨empty, split, allNil, isSorted⟩ := exists_sort_eq noObstacle
  refine ⟨length_sort lines, ?_, commas_sort_iff noObstacle⟩
  refine ⟨filledLines (longestFirst (lines.map bare)), empty, ?_, fun _ => filled_of_mem, allNil,
    isSorted⟩
  rw [← split]
  exact longestFirst_spec _

/-- Lines with blanks and commas at their ends, empty lines among them, and the longest one
last and without a comma. -/
def scatteredLines : List Text :=
  ["  b, c,  ", [], "  aaaa ,", "  dd,,", "   ",
    "  eeeeee"]

theorem sort_longestFirst_punctuated_scattered :
    sort scatteredLines =
        (["  eeeeee,", "  b, c,", "  aaaa,", "  dd,", [], []] : List Text) ∧
      commas (sort scatteredLines) = commas scatteredLines ∧
      ∃ filled empty,
        LongestFirst (scatteredLines.map bare) (filled ++ empty) ∧
          sort scatteredLines = punctuated false filled ++ empty := by
  have orderable :
      ∀ line ∈ scatteredLines, hasComment line = false ∧ hasLeadingComma line = false := by
    decide +kernel
  have separated : Separated scatteredLines := by
    unfold Separated
    decide +kernel
  have noLastComma : endsWith ',' (lastLine scatteredLines).stripRight = false := by
    decide +kernel
  obtain ⟨_, ⟨filled, empty, ordered, _, _, isSorted⟩, kept⟩ :=
    sort_longestFirst_punctuated orderable
  rw [noLastComma] at isSorted
  refine ⟨?_, kept.mpr separated, filled, empty, ordered, isSorted⟩
  have bared :
      scatteredLines.map bare =
        (["  b, c", [], "  aaaa", "  dd,", [], "  eeeeee"] : List Text) := by
    decide +kernel
  have isOrdered :
      longestFirst (["  b, c", [], "  aaaa", "  dd,", [], "  eeeeee"] : List Text) =
        (["  eeeeee", "  b, c", "  aaaa", "  dd,", [], []] : List Text) := by
    simp [longestFirst, List.mergeSort, Text.ofList]
  rw [sort_of_noObstacle (by decide +kernel), bared, isOrdered]
  decide +kernel

end Specifiers

end Tidy
