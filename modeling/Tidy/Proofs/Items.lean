import Tidy.Proofs.Search
import Tidy.Proofs.Words

/-!
# Items between commas

A text that lists items is cut at its commas.  Blanks between two texts weld the last item
of the one and the first item of the other together, however many they are, and that loses
an item exactly when both hold a word.
-/

namespace Tidy.Text

/-- The items between the commas of a text, each as its words. -/
def items (text : Text) : List (List Text) :=
  (text.splitOn (.scalar ',')).map words

theorem items_ne_nil
    (text : Text) :
    items text ≠ [] := by
  rw [items, ne_eq, List.map_eq_nil_iff]
  exact List.splitOn_ne_nil (.scalar ',') text

theorem items_nil :
    items [] = [[]] :=
  rfl

theorem items_append_comma
    (front rest : Text) :
    items (front ++ CodePoint.scalar ',' :: rest) = items front ++ items rest := by
  unfold items
  rw [List.splitOn_append_cons_self, List.map_append]

theorem items_of_noComma
    {text : Text}
    (noComma : CodePoint.scalar ',' ∉ text) :
    items text = [words text] := by
  rw [items, List.splitOn_eq_singleton noComma, List.map_singleton]

theorem items_of_blank
    {blanks : Text}
    (allBlank : ∀ character ∈ blanks, isBlank character = true) :
    items blanks = [[]] := by
  rw [items_of_noComma fun isComma => absurd (allBlank ',' isComma) (by decide),
    words_of_blank allBlank]

/-! ## Items welded together -/

/-- Two lists of items whose last and first item are one. -/
def weld : List (List Text) → List (List Text) → List (List Text)
  | [], later => later
  | [last], [] => [last]
  | [last], first :: later => (last ++ first) :: later
  | item :: next :: others, later => item :: weld (next :: others) later

theorem weld_cons
    (item : List Text) {others : List (List Text)} (filled : others ≠ [])
    (later : List (List Text)) :
    weld (item :: others) later = item :: weld others later := by
  obtain ⟨next, rest, rfl⟩ := List.exists_cons_of_ne_nil filled
  rfl

theorem weld_append_left
    (earlier : List (List Text)) {others : List (List Text)} (filled : others ≠ [])
    (later : List (List Text)) :
    weld (earlier ++ others) later = earlier ++ weld others later := by
  induction earlier with
  | nil =>
      rfl
  | cons item rest inductionHypothesis =>
      have behind := List.append_ne_nil_of_right_ne_nil rest filled
      rw [List.cons_append, weld_cons item behind, inductionHypothesis, List.cons_append]

/-- An empty item adds nothing in front. -/
theorem empty_weld
    {later : List (List Text)} (filled : later ≠ []) :
    weld [[]] later = later := by
  obtain ⟨first, others, rfl⟩ := List.exists_cons_of_ne_nil filled
  rfl

/-- An empty item adds nothing behind. -/
theorem weld_empty
    {earlier : List (List Text)} (filled : earlier ≠ []) :
    weld earlier [[]] = earlier := by
  induction earlier with
  | nil =>
      exact absurd rfl filled
  | cons item rest inductionHypothesis =>
      cases rest with
      | nil =>
          rw [weld, List.append_nil]
      | cons next further =>
          rw [weld_cons item (List.cons_ne_nil next further),
            inductionHypothesis (List.cons_ne_nil next further)]

/-- Blanks weld the items on both sides together. -/
theorem items_gap
    {gap : Text}
    (allBlank : ∀ character ∈ gap, isBlank character = true)
    (filled : gap ≠ []) (front rest : Text) :
    items (front ++ (gap ++ rest)) = weld (items front) (items rest) := by
  have gapNoComma : CodePoint.scalar ',' ∉ gap :=
    fun isComma => absurd (allBlank ',' isComma) (by decide)
  -- Commas in front and behind are cut off first.
  induction length : front.length using Nat.strongRecOn generalizing front with
  | _ size inductionHypothesis =>
      by_cases hasComma : CodePoint.scalar ',' ∈ front
      · obtain ⟨first, others, rfl, _⟩ := List.eq_append_cons_of_mem hasComma
        have shorter : others.length < size := by
          rw [← length, List.length_append, List.length_cons]
          omega
        rw [List.append_assoc, List.cons_append, items_append_comma, items_append_comma,
          weld_append_left _ (items_ne_nil others), inductionHypothesis _ shorter others rfl]
      · have welded {behind : Text} (noComma : CodePoint.scalar ',' ∉ behind) :
            items (front ++ (gap ++ behind)) = [words front ++ words behind] := by
          rw [items_of_noComma (by simp [hasComma, gapNoComma, noComma]),
            words_gap allBlank filled]
        by_cases restComma : CodePoint.scalar ',' ∈ rest
        · obtain ⟨first, others, rfl, noComma⟩ := List.eq_append_cons_of_mem restComma
          rw [← List.append_assoc, ← List.append_assoc, items_append_comma, List.append_assoc,
            welded noComma, items_append_comma, items_of_noComma hasComma,
            items_of_noComma noComma]
          rfl
        · rw [welded restComma, items_of_noComma hasComma, items_of_noComma restComma]
          rfl

theorem items_append_blanks
    {blanks : Text}
    (allBlank : ∀ character ∈ blanks, isBlank character = true) (front : Text) :
    items (front ++ blanks) = items front := by
  by_cases isEmpty : blanks = []
  · rw [isEmpty, List.append_nil]
  · have welded := items_gap allBlank isEmpty front []
    rw [List.append_nil, items_nil, weld_empty (items_ne_nil front)] at welded
    exact welded

theorem items_blanks_append
    {blanks : Text}
    (allBlank : ∀ character ∈ blanks, isBlank character = true) (rest : Text) :
    items (blanks ++ rest) = items rest := by
  by_cases isEmpty : blanks = []
  · rw [isEmpty, List.nil_append]
  · have welded := items_gap allBlank isEmpty [] rest
    rw [items_nil, empty_weld (items_ne_nil rest)] at welded
    exact welded

@[simp]
theorem items_stripRight
    (text : Text) :
    items (stripRight text) = items text := by
  obtain ⟨blanks, split, allBlank⟩ := exists_stripRight_append text
  conv => rhs; rw [split, items_append_blanks allBlank]

@[simp]
theorem items_stripLeft
    (text : Text) :
    items (stripLeft text) = items text := by
  obtain ⟨blanks, split, allBlank⟩ := exists_append_stripLeft text
  conv => rhs; rw [split, items_blanks_append allBlank]

/-! ## Items that hold a word -/

def named (items : List (List Text)) : List Text :=
  (items.filter fun item => !item.isEmpty).map (([' '] : Text).intercalate ·)

@[simp]
theorem named_append
    (earlier later : List (List Text)) :
    named (earlier ++ later) = named earlier ++ named later := by
  rw [named, List.filter_append, List.map_append]
  rfl

@[simp]
theorem named_empty_cons
    (later : List (List Text)) :
    named ([] :: later) = named later :=
  rfl

theorem named_cons_of_ne_nil
    {item : List Text} (filled : item ≠ []) (later : List (List Text)) :
    named (item :: later) = ([' '] : Text).intercalate item :: named later := by
  rw [named, List.filter_cons_of_pos (by simpa using filled), List.map_cons]
  rfl

def startsFilled (items : List (List Text)) : Bool :=
  items.head?.any fun item => !item.isEmpty

def endsFilled (items : List (List Text)) : Bool :=
  items.getLast?.any fun item => !item.isEmpty

theorem weld_concat
    (earlier : List (List Text)) (last first : List Text) (later : List (List Text)) :
    weld (earlier ++ [last]) (first :: later) = earlier ++ (last ++ first) :: later :=
  weld_append_left earlier (List.cons_ne_nil last []) (first :: later)

theorem endsFilled_concat
    (earlier : List (List Text)) (last : List Text) :
    endsFilled (earlier ++ [last]) = !last.isEmpty := by
  rw [endsFilled, List.getLast?_concat, Option.any_some]

/-- Nothing is welded to an item without a word. -/
theorem named_weld_of_apart
    {earlier later : List (List Text)}
    (isFilled : earlier ≠ []) (laterFilled : later ≠ [])
    (apart : endsFilled earlier = false ∨ startsFilled later = false) :
    named (weld earlier later) = named earlier ++ named later := by
  obtain ⟨first, others, rfl⟩ := List.exists_cons_of_ne_nil laterFilled
  obtain ⟨front, last, rfl⟩ := (List.eq_nil_or_concat earlier).resolve_left isFilled
  rw [List.concat_eq_append, endsFilled_concat] at apart
  rw [List.concat_eq_append, weld_concat, named_append, named_append, List.append_assoc]
  congr 1
  rcases apart with isEmpty | isEmpty
  · have noLast : last = [] := by simpa using isEmpty
    rw [noLast]
    rfl
  · have noFirst : first = [] := by simpa [startsFilled] using isEmpty
    rw [noFirst, List.append_nil, named_empty_cons, ← named_append]
    rfl

/-- Welding loses one item when both ends hold a word, and else none. -/
theorem length_named_weld
    {earlier later : List (List Text)}
    (isFilled : earlier ≠ []) (laterFilled : later ≠ []) :
    (named (weld earlier later)).length + (endsFilled earlier && startsFilled later).toNat =
      (named earlier).length + (named later).length := by
  cases isOpen : endsFilled earlier && startsFilled later with
  | false =>
      rw [Bool.and_eq_false_iff] at isOpen
      rw [named_weld_of_apart isFilled laterFilled isOpen, List.length_append]
      rfl
  | true =>
      obtain ⟨first, others, rfl⟩ := List.exists_cons_of_ne_nil laterFilled
      obtain ⟨front, last, rfl⟩ := (List.eq_nil_or_concat earlier).resolve_left isFilled
      rw [List.concat_eq_append, endsFilled_concat, Bool.and_eq_true] at isOpen
      have hasLast : last ≠ [] := by simpa using isOpen.1
      have hasFirst : first ≠ [] := by simpa [startsFilled] using isOpen.2
      have welded : last ++ first ≠ [] := List.append_ne_nil_of_left_ne_nil hasLast first
      rw [List.concat_eq_append, weld_concat]
      simp only [named_append, named_cons_of_ne_nil hasLast, named_cons_of_ne_nil hasFirst,
        named_cons_of_ne_nil welded, List.length_append, List.length_cons, Bool.toNat_true]
      have nothing : (named []).length = 0 := rfl
      omega

theorem startsFilled_weld
    {earlier : List (List Text)}
    (starts : startsFilled earlier = true) (later : List (List Text)) :
    startsFilled (weld earlier later) = true := by
  fun_cases weld earlier later with
  | case1 =>
      cases starts
  | case2 =>
      exact starts
  | case3 last first others =>
      have hasLast : last ≠ [] := by simpa [startsFilled] using starts
      simp [startsFilled, hasLast]
  | case4 =>
      exact starts

/-- The first item holds a word unless the text is blank or starts with a comma. -/
theorem startsFilled_items
    (text : Text) :
    startsFilled (items text) =
      (text.find? fun character => !isBlank character).any (· != CodePoint.scalar ',') := by
  rw [← head?_stripLeft, ← items_stripLeft]
  cases shape : stripLeft text with
  | nil =>
      rfl
  | cons first rest =>
      have notBlank : isBlank first = false :=
        startsTight_stripLeft text first (by rw [shape]; rfl)
      by_cases isComma : first = ','
      · rw [isComma]
        exact congrArg startsFilled (items_append_comma [] rest)
      · obtain ⟨piece, others, pieces⟩ :=
          List.exists_cons_of_ne_nil (List.splitOn_ne_nil (CodePoint.scalar ',') rest)
        have hasWord : words (first :: piece) ≠ [] := by
          rw [ne_eq, words_eq_nil_iff]
          intro allBlank
          rw [allBlank first List.mem_cons_self] at notBlank
          cases notBlank
        rw [items, List.splitOn_cons_eq_if_modifyHead, if_neg (by simpa using isComma), pieces]
        have notComma : (first != ',') = true := bne_iff_ne.mpr isComma
        simp [startsFilled, notComma, hasWord]

theorem endsFilled_items_concat
    (front : Text) {last : CodePoint}
    (notBlank : isBlank last = false)
    (notComma : last ≠ ',') :
    endsFilled (items (front ++ [last])) = true := by
  induction front with
  | nil =>
      have hasWord : words [last] ≠ [] := by
        rw [ne_eq, words_eq_nil_iff]
        simp [notBlank]
      rw [List.nil_append, items_of_noComma (by simpa using notComma.symm)]
      simp [endsFilled, hasWord]
  | cons first rest inductionHypothesis =>
      obtain ⟨piece, others, pieces⟩ :=
        List.exists_cons_of_ne_nil (List.splitOn_ne_nil (CodePoint.scalar ',') (rest ++ [last]))
      rw [items, pieces] at inductionHypothesis
      rw [items, List.cons_append, List.splitOn_cons_eq_if_modifyHead, pieces]
      split
      · exact inductionHypothesis
      · cases others with
        | cons next later =>
            exact inductionHypothesis
        | nil =>
            have hasWord : words (first :: piece) ≠ [] := by
              rw [ne_eq, words_eq_nil_iff]
              intro allBlank
              have noWord := words_of_blank (List.forall_mem_cons.mp allBlank).2
              rw [List.map_singleton, noWord] at inductionHypothesis
              cases inductionHypothesis
            simp [endsFilled, hasWord]

/-- The last item holds a word unless the text is blank or ends with a comma. -/
theorem endsFilled_items
    (text : Text) :
    endsFilled (items text) = text.stripRight.getLast?.any (· != CodePoint.scalar ',') := by
  rw [← items_stripRight]
  rcases List.eq_nil_or_concat text.stripRight with isEmpty | ⟨front, last, shape⟩
  · rw [isEmpty]
    rfl
  · rw [List.concat_eq_append] at shape
    have notBlank : isBlank last = false :=
      endsTight_stripRight text last (by rw [shape, List.getLast?_concat])
    rw [shape, List.getLast?_concat, Option.any_some]
    by_cases isComma : last = ','
    · rw [isComma, items_append_comma, items_nil, endsFilled_concat]
      rfl
    · rw [endsFilled_items_concat front notBlank isComma, bne_iff_ne.mpr isComma]

end Tidy.Text
