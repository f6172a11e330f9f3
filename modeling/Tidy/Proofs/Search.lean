import Tidy.Proofs.Trim

/-!
# Searching and trimming

What can be found in a text does not depend on the blanks at its ends: words
without a blank at their end, the first character that is not blank, braces.
-/

namespace Tidy.Text

/-! ## Words -/

theorem includes_iff_isInfix
    (sought text : Text) :
    includes sought text = true ↔ sought <:+: text := by
  induction text with
  | nil =>
      rw [includes, List.isEmpty_iff, List.infix_nil]
  | cons character rest inductionHypothesis =>
      rw [includes, Bool.or_eq_true, inductionHypothesis, List.isPrefixOf_iff_prefix,
        List.infix_cons_iff]

/-- A word is not found across an end that lacks its last character. -/
theorem infix_of_infix_append
    {front text extra : Text} {last : CodePoint}
    (absent : last ∉ extra)
    (found : front ++ [last] <:+: text ++ extra) :
    front ++ [last] <:+: text := by
  obtain ⟨before, after, equality⟩ := found
  rcases List.append_eq_append_iff.mp equality with
    ⟨between, textSplit, extraSplit⟩ | ⟨between, wordSplit, extraSplit⟩
  · exact ⟨before, between, textSplit.symm⟩
  · rcases List.eq_nil_or_concat between with empty | ⟨others, final, shape⟩
    · rw [empty, List.append_nil] at wordSplit
      exact ⟨before, [], by rw [List.append_nil]; exact wordSplit⟩
    · have sameLast : last = final := by
        rw [shape, List.concat_eq_append, ← List.append_assoc, ← List.append_assoc] at wordSplit
        exact (List.append_inj_right' wordSplit rfl |> List.singleton_inj.mp)
      exact absurd (by rw [extraSplit, shape, sameLast]; simp) absent

theorem includes_append_iff
    {front extra : Text} {last : CodePoint}
    (absent : last ∉ extra) (text : Text) :
    includes (front ++ [last]) (text ++ extra) = includes (front ++ [last]) text := by
  rw [Bool.eq_iff_iff, includes_iff_isInfix, includes_iff_isInfix]
  constructor
  · exact infix_of_infix_append absent
  · intro found
    exact found.trans (List.prefix_append text extra).isInfix

/-! ## The first character that is not blank -/

theorem head?_stripLeft
    (text : Text) :
    (stripLeft text).head? = text.find? fun character => !isBlank character := by
  induction text with
  | nil =>
      rfl
  | cons character rest inductionHypothesis =>
      cases blank : isBlank character with
      | true =>
          simpa [stripLeft, blank] using inductionHypothesis
      | false =>
          simp [stripLeft, blank]

theorem head?_stripRight_of_startsTight
    {text : Text} (tight : StartsTight text) :
    (stripRight text).head? = text.head? := by
  obtain ⟨blanks, split, allBlank⟩ := exists_stripRight_append text
  cases shape : stripRight text with
  | nil =>
      rw [shape, List.nil_append] at split
      cases blanks with
      | nil =>
          rw [split]
      | cons first others =>
          have notBlank := tight first (by rw [split]; rfl)
          have isBlank := allBlank first List.mem_cons_self
          rw [notBlank] at isBlank
          cases isBlank
  | cons first others =>
      rw [shape] at split
      rw [split]
      rfl

theorem head?_strip
    (text : Text) :
    (strip text).head? = text.find? fun character => !isBlank character := by
  unfold strip
  rw [head?_stripRight_of_startsTight (startsTight_stripLeft text), head?_stripLeft]

/-! ## Braces -/

theorem fromBrace_filter
    {keep : CodePoint → Bool} (keepsOpening : keep '\x7b' = true) (text : Text) :
    fromBrace (text.filter keep) = (fromBrace text).filter keep := by
  unfold fromBrace
  rw [List.dropWhile_filter]
  congr 2
  funext character
  by_cases opening : character = '\x7b'
  · rw [opening, keepsOpening]
    rfl
  · simp [opening]

theorem fromBrace_eq_nil_iff
    (text : Text) :
    fromBrace text = [] ↔ CodePoint.scalar '\x7b' ∉ text := by
  induction text with
  | nil =>
      simp [fromBrace]
  | cons character rest inductionHypothesis =>
      by_cases opening : character = '\x7b'
      · simp [fromBrace, opening]
      · have skipped : fromBrace (character :: rest) = fromBrace rest := by
          simp [fromBrace, opening]
        rw [skipped, inductionHypothesis, List.mem_cons, not_or]
        exact ⟨fun absent => ⟨fun equal => opening equal.symm, absent⟩, fun both => both.2⟩

theorem closesBrace_filter
    {keep : CodePoint → Bool}
    (keepsOpening : keep '\x7b' = true)
    (keepsClosing : keep '\x7d' = true)
    (text : Text) :
    closesBrace (text.filter keep) = closesBrace text := by
  unfold closesBrace
  rw [fromBrace_filter keepsOpening, Bool.eq_iff_iff, List.contains_iff_mem,
    List.contains_iff_mem, List.mem_filter]
  exact ⟨fun both => both.1, fun member => ⟨member, keepsClosing⟩⟩

theorem leavesBraceOpen_filter
    {keep : CodePoint → Bool}
    (keepsOpening : keep '\x7b' = true)
    (keepsClosing : keep '\x7d' = true)
    (text : Text) :
    leavesBraceOpen (text.filter keep) = leavesBraceOpen text := by
  have sameEmpty :
      (fromBrace (text.filter keep)).isEmpty = (fromBrace text).isEmpty := by
    rw [Bool.eq_iff_iff, List.isEmpty_iff, List.isEmpty_iff, fromBrace_eq_nil_iff,
      fromBrace_eq_nil_iff, List.mem_filter]
    exact ⟨fun absent member => absent ⟨member, keepsOpening⟩,
      fun absent both => absent both.1⟩
  unfold leavesBraceOpen
  rw [sameEmpty, closesBrace_filter keepsOpening keepsClosing]

/-- Trimming leaves braces as they are. -/
theorem leavesBraceOpen_strip
    (text : Text) :
    leavesBraceOpen (strip text) = leavesBraceOpen text := by
  have squashed (any : Text) : leavesBraceOpen (squash any) = leavesBraceOpen any :=
    leavesBraceOpen_filter (by decide) (by decide) any
  rw [← squashed (strip text), squash_strip, squashed]

theorem opening_mem_of_leavesBraceOpen
    {text : Text} (leavesOpen : leavesBraceOpen text = true) :
    CodePoint.scalar '\x7b' ∈ text := by
  unfold leavesBraceOpen at leavesOpen
  rw [Bool.and_eq_true, Bool.not_eq_true', List.isEmpty_eq_false_iff] at leavesOpen
  have notNil := leavesOpen.1
  rw [ne_eq, fromBrace_eq_nil_iff] at notNil
  exact Decidable.not_not.mp notNil

end Tidy.Text
