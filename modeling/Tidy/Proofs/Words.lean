import Tidy.Proofs.Trim

/-!
# Words

The words of a text are what stands between its blanks.  How many blanks stand between
two words, or at the ends, makes no difference.
-/

namespace Tidy.Text

def words (text : Text) : List Text :=
  (text.splitOnP isBlank).filter fun word => !word.isEmpty

theorem words_append_cons
    {blank : CodePoint} (isBlank : isBlank blank = true) (front rest : Text) :
    words (front ++ blank :: rest) = words front ++ words rest := by
  unfold words
  rw [List.splitOnP_append_cons front rest isBlank, List.filter_append]

theorem words_blanks_append
    {blanks : Text}
    (allBlank : ∀ character ∈ blanks, isBlank character = true) (rest : Text) :
    words (blanks ++ rest) = words rest := by
  induction blanks with
  | nil =>
      rfl
  | cons first others inductionHypothesis =>
      obtain ⟨isBlank, othersBlank⟩ := List.forall_mem_cons.mp allBlank
      have dropped := words_append_cons isBlank [] (others ++ rest)
      rw [List.cons_append]
      exact dropped.trans (inductionHypothesis othersBlank)

theorem words_of_blank
    {blanks : Text}
    (allBlank : ∀ character ∈ blanks, isBlank character = true) :
    words blanks = [] := by
  have dropped := words_blanks_append allBlank []
  rw [List.append_nil] at dropped
  exact dropped

/-- Words are told apart by any blanks. -/
theorem words_gap
    {gap : Text}
    (allBlank : ∀ character ∈ gap, isBlank character = true)
    (filled : gap ≠ []) (front rest : Text) :
    words (front ++ (gap ++ rest)) = words front ++ words rest := by
  obtain ⟨first, others, rfl⟩ := List.exists_cons_of_ne_nil filled
  obtain ⟨isBlank, othersBlank⟩ := List.forall_mem_cons.mp allBlank
  rw [List.cons_append, words_append_cons isBlank, words_blanks_append othersBlank]

theorem words_append_blanks
    {blanks : Text}
    (allBlank : ∀ character ∈ blanks, isBlank character = true) (front : Text) :
    words (front ++ blanks) = words front := by
  by_cases isEmpty : blanks = []
  · rw [isEmpty, List.append_nil]
  · have separated := words_gap allBlank isEmpty front []
    rw [List.append_nil] at separated
    exact separated.trans (List.append_nil _)

/-- A text has no words exactly when all its characters are blank. -/
theorem words_eq_nil_iff
    (text : Text) :
    words text = [] ↔ ∀ character ∈ text, isBlank character = true := by
  refine ⟨?_, words_of_blank⟩
  intro noWords
  obtain ⟨blanks, split, allBlank⟩ := exists_append_stripLeft text
  cases shape : stripLeft text with
  | nil =>
      rw [shape, List.append_nil] at split
      rw [split]
      exact allBlank
  | cons first others =>
      have notBlank : isBlank first = false :=
        startsTight_stripLeft text first (by rw [shape]; rfl)
      obtain ⟨word, later, pieces⟩ :=
        List.exists_cons_of_ne_nil (List.splitOnP_ne_nil (p := isBlank) others)
      rw [split, words_blanks_append allBlank, shape, words,
        List.splitOnP_cons_eq_if_modifyHead, notBlank, pieces] at noWords
      simp at noWords

end Tidy.Text
