import Tidy.Text.Basic

/-!
# Trimming

What trimming leaves of a text: its characters that are not blank, a first and a
last character that are not blank either, and nothing more to trim.
-/

namespace Tidy.Text

/-- The last character, if there is one, is not blank. -/
def EndsTight (text : Text) : Prop :=
  ∀ character, text.getLast? = some character → isBlank character = false

def StartsTight (text : Text) : Prop :=
  ∀ character, text.head? = some character → isBlank character = false

/-! ## The right end -/

theorem stripRight_append_of_blank
    (text : Text) {blanks : Text}
    (allBlank : ∀ character ∈ blanks, isBlank character = true) :
    stripRight (text ++ blanks) = stripRight text := by
  have reverseBlank :
      ∀ character ∈ blanks.reverse, isBlank character = true := by
    intro character member
    exact allBlank character (List.mem_reverse.mp member)
  unfold stripRight
  rw [List.reverse_append, List.dropWhile_append_of_pos reverseBlank]

theorem stripRight_eq_self_of_endsTight
    {text : Text} (tight : EndsTight text) :
    stripRight text = text := by
  unfold stripRight
  cases shape : text.reverse with
  | nil =>
      have empty : text = [] := by simpa using shape
      simp [empty]
  | cons last front =>
      have isLast : text.getLast? = some last := by
        rw [← List.head?_reverse, shape]
        rfl
      have notBlank : isBlank last = false := tight last isLast
      rw [List.dropWhile_cons, notBlank]
      simp [← shape]

/-- A text is its trimmed beginning followed by blanks. -/
theorem exists_stripRight_append
    (text : Text) :
    ∃ blanks, text = stripRight text ++ blanks ∧
      ∀ character ∈ blanks, isBlank character = true := by
  refine ⟨(text.reverse.takeWhile isBlank).reverse, ?_, ?_⟩
  · unfold stripRight
    rw [← List.reverse_append, List.takeWhile_append_dropWhile, List.reverse_reverse]
  · intro character member
    exact List.all_eq_true.mp List.all_takeWhile character (List.mem_reverse.mp member)

theorem endsTight_stripRight
    (text : Text) :
    EndsTight (stripRight text) := by
  intro character isLast
  unfold stripRight at isLast
  rw [List.getLast?_reverse] at isLast
  have refused := List.head?_dropWhile_not isBlank text.reverse
  rw [isLast] at refused
  simpa using refused

theorem EndsTight.append
    {front rest : Text}
    (frontTight : EndsTight front)
    (restTight : EndsTight rest) :
    EndsTight (front ++ rest) := by
  intro character isLast
  rw [List.getLast?_append] at isLast
  cases restLast : rest.getLast? with
  | none =>
      rw [restLast] at isLast
      exact frontTight character isLast
  | some last =>
      rw [restLast] at isLast
      exact restTight character (restLast.trans isLast)

theorem EndsTight.append_of_ne_nil
    (front : Text) {rest : Text}
    (restTight : EndsTight rest)
    (filled : rest ≠ []) :
    EndsTight (front ++ rest) := by
  intro character isLast
  obtain ⟨last, restLast⟩ := Option.ne_none_iff_exists'.mp (mt List.getLast?_eq_none_iff.mp filled)
  rw [List.getLast?_append, restLast] at isLast
  exact restTight character (restLast.trans isLast)

/-- Behind a text that ends tight, only the rest is trimmed. -/
theorem stripRight_append_of_endsTight
    {front : Text} (tight : EndsTight front) (rest : Text) :
    stripRight (front ++ rest) = front ++ stripRight rest := by
  obtain ⟨blanks, split, allBlank⟩ := exists_stripRight_append rest
  calc
    stripRight (front ++ rest) = stripRight ((front ++ stripRight rest) ++ blanks) := by
      rw [List.append_assoc, ← split]
    _ = stripRight (front ++ stripRight rest) := stripRight_append_of_blank _ allBlank
    _ = front ++ stripRight rest :=
      stripRight_eq_self_of_endsTight (tight.append (endsTight_stripRight rest))

@[simp]
theorem stripRight_stripRight
    (text : Text) :
    stripRight (stripRight text) = stripRight text :=
  stripRight_eq_self_of_endsTight (endsTight_stripRight text)

theorem stripRight_isPrefix
    (text : Text) :
    stripRight text <+: text := by
  obtain ⟨blanks, split, _⟩ := exists_stripRight_append text
  exact ⟨blanks, split.symm⟩

/-! ## The left end -/

/-- A text is blanks followed by its trimmed end. -/
theorem exists_append_stripLeft
    (text : Text) :
    ∃ blanks, text = blanks ++ stripLeft text ∧
      ∀ character ∈ blanks, isBlank character = true := by
  refine ⟨text.takeWhile isBlank, ?_, ?_⟩
  · unfold stripLeft
    rw [List.takeWhile_append_dropWhile]
  · exact List.all_eq_true.mp List.all_takeWhile

theorem stripLeft_eq_self_of_startsTight
    {text : Text} (tight : StartsTight text) :
    stripLeft text = text := by
  unfold stripLeft
  cases text with
  | nil =>
      rfl
  | cons first rest =>
      have notBlank : isBlank first = false := tight first rfl
      rw [List.dropWhile_cons, notBlank]
      rfl

/-- Nothing behind the first character that is not blank is trimmed. -/
theorem stripLeft_append
    {text : Text}
    (filled : stripLeft text ≠ []) (tail : Text) :
    stripLeft (text ++ tail) = stripLeft text ++ tail := by
  unfold stripLeft at filled ⊢
  rw [List.dropWhile_append, if_neg (by simpa using filled)]

theorem stripLeft_append_cons
    (text : Text) {character : CodePoint}
    (notBlank : isBlank character = false) (tail : Text) :
    stripLeft (text ++ character :: tail) = stripLeft text ++ character :: tail := by
  by_cases empty : stripLeft text = []
  · rw [empty]
    unfold stripLeft at empty ⊢
    rw [List.dropWhile_append, empty, List.dropWhile_cons, notBlank]
    rfl
  · exact stripLeft_append empty _

theorem startsTight_stripLeft
    (text : Text) :
    StartsTight (stripLeft text) := by
  intro character isFirst
  have refused := List.head?_dropWhile_not isBlank text
  unfold stripLeft at isFirst
  rw [isFirst] at refused
  simpa using refused

theorem head?_of_head?_stripRight
    {text : Text} {character : CodePoint}
    (isFirst : (stripRight text).head? = some character) :
    text.head? = some character := by
  obtain ⟨blanks, split, _⟩ := exists_stripRight_append text
  rw [split, List.head?_append, isFirst]
  rfl

/-- Trimming the right end keeps the first character, unless nothing stays. -/
theorem startsTight_stripRight
    {text : Text} (tight : StartsTight text) :
    StartsTight (stripRight text) :=
  fun character isFirst => tight character (head?_of_head?_stripRight isFirst)

/-- Blanks in front of a text that starts tight are trimmed, and nothing else. -/
theorem stripLeft_blanks_append
    {blanks text : Text}
    (allBlank : ∀ character ∈ blanks, isBlank character = true)
    (tight : StartsTight text) :
    stripLeft (blanks ++ text) = text := by
  conv => rhs; rw [← stripLeft_eq_self_of_startsTight tight]
  exact List.dropWhile_append_of_pos allBlank

/-! ## Both ends -/

theorem endsTight_strip
    (text : Text) :
    EndsTight (strip text) :=
  endsTight_stripRight (stripLeft text)

theorem startsTight_strip
    (text : Text) :
    StartsTight (strip text) :=
  startsTight_stripRight (startsTight_stripLeft text)

theorem strip_eq_self_of_tight
    {text : Text}
    (startsTight : StartsTight text)
    (endsTight : EndsTight text) :
    strip text = text := by
  unfold strip
  rw [stripLeft_eq_self_of_startsTight startsTight]
  exact stripRight_eq_self_of_endsTight endsTight

@[simp]
theorem strip_strip
    (text : Text) :
    strip (strip text) = strip text :=
  strip_eq_self_of_tight (startsTight_strip text) (endsTight_strip text)

/-- A text is blanks, its trimmed middle, and blanks again. -/
theorem exists_append_strip_append
    (text : Text) :
    ∃ before after, text = before ++ strip text ++ after ∧
      (∀ character ∈ before, isBlank character = true) ∧
      ∀ character ∈ after, isBlank character = true := by
  obtain ⟨before, leftSplit, beforeBlank⟩ := exists_append_stripLeft text
  obtain ⟨after, rightSplit, afterBlank⟩ := exists_stripRight_append (stripLeft text)
  refine ⟨before, after, ?_, beforeBlank, afterBlank⟩
  calc
    text = before ++ stripLeft text := leftSplit
    _ = before ++ (strip text ++ after) := by rw [strip, ← rightSplit]
    _ = before ++ strip text ++ after := (List.append_assoc ..).symm

/-- Blanks at the end that are trimmed first make no difference. -/
@[simp]
theorem strip_stripRight
    (text : Text) :
    strip (stripRight text) = strip text := by
  obtain ⟨blanks, split, allBlank⟩ := exists_stripRight_append text
  unfold strip
  conv => rhs; rw [split]
  by_cases empty : stripLeft (stripRight text) = []
  · have onlyBlanks : stripLeft (stripRight text ++ blanks) = stripLeft blanks := by
      unfold stripLeft at empty ⊢
      rw [List.dropWhile_append, empty]
      rfl
    have stillBlank : ∀ character ∈ stripLeft blanks, isBlank character = true :=
      fun character member => allBlank character ((List.dropWhile_sublist _).subset member)
    rw [empty, onlyBlanks, ← List.nil_append (stripLeft blanks),
      stripRight_append_of_blank [] stillBlank]
  · rw [stripLeft_append empty, stripRight_append_of_blank _ allBlank]

/-! ## Parts of a text -/

theorem stripRight_sublist
    (text : Text) :
    (stripRight text).Sublist text :=
  (stripRight_isPrefix text).sublist

theorem stripLeft_sublist
    (text : Text) :
    (stripLeft text).Sublist text :=
  List.dropWhile_sublist isBlank

theorem strip_sublist
    (text : Text) :
    (strip text).Sublist text :=
  (stripRight_sublist (stripLeft text)).trans (stripLeft_sublist text)

theorem afterWord_sublist
    (text : Text) :
    (afterWord text).Sublist text :=
  (stripLeft_sublist _).trans (List.dropWhile_sublist _)

/-! ## Characters that trimming cannot touch -/

/-- A test that no blank passes. -/
def RefusesBlanks (keep : CodePoint → Bool) : Prop :=
  ∀ character, isBlank character = true → keep character = false

section Refusing

variable {keep : CodePoint → Bool}

theorem filter_of_blank
    (refuses : RefusesBlanks keep) {blanks : Text}
    (allBlank : ∀ character ∈ blanks, isBlank character = true) :
    blanks.filter keep = [] := by
  rw [List.filter_eq_nil_iff]
  intro character member
  rw [refuses character (allBlank character member)]
  exact Bool.false_ne_true

theorem filter_stripRight
    (refuses : RefusesBlanks keep) (text : Text) :
    (stripRight text).filter keep = text.filter keep := by
  obtain ⟨blanks, split, allBlank⟩ := exists_stripRight_append text
  conv => rhs; rw [split]
  rw [List.filter_append, filter_of_blank refuses allBlank, List.append_nil]

theorem filter_strip
    (refuses : RefusesBlanks keep) (text : Text) :
    (strip text).filter keep = text.filter keep := by
  obtain ⟨before, after, split, beforeBlank, afterBlank⟩ :=
    exists_append_strip_append text
  conv => rhs; rw [split]
  rw [List.filter_append, List.filter_append,
    filter_of_blank refuses beforeBlank, filter_of_blank refuses afterBlank,
    List.nil_append, List.append_nil]

theorem refusesBlanks_squash :
    RefusesBlanks fun character => !isBlank character := by
  intro character blank
  simp [blank]

theorem squash_strip
    (text : Text) :
    squash (strip text) = squash text :=
  filter_strip refusesBlanks_squash text

theorem squash_of_blank
    {blanks : Text}
    (allBlank : ∀ character ∈ blanks, isBlank character = true) :
    squash blanks = [] :=
  filter_of_blank refusesBlanks_squash allBlank

theorem squash_append
    (front rest : Text) :
    squash (front ++ rest) = squash front ++ squash rest :=
  List.filter_append front rest

theorem filter_squash
    (refuses : RefusesBlanks keep) (text : Text) :
    (squash text).filter keep = text.filter keep := by
  unfold squash
  rw [List.filter_filter]
  apply List.filter_congr
  intro character _
  cases blank : isBlank character with
  | false =>
      simp
  | true =>
      simp [refuses character blank]

end Refusing

/-! ## Characters that spaces cannot touch -/

theorem isBlank_of_mem_replicate
    (count : Nat) :
    ∀ character ∈ List.replicate count (CodePoint.scalar ' '), isBlank character = true := by
  intro character member
  rw [List.eq_of_mem_replicate member]
  rfl

theorem isBlank_of_mem_space :
    ∀ character ∈ ([' '] : Text), isBlank character = true :=
  isBlank_of_mem_replicate 1

section Spacing

variable {keep : CodePoint → Bool}

theorem filter_of_space
    (noSpace : keep ' ' = false) {spaces : Text}
    (allSpace : ∀ character ∈ spaces, character = ' ') :
    spaces.filter keep = [] := by
  rw [List.filter_eq_nil_iff]
  intro character member
  rw [allSpace character member, noSpace]
  exact Bool.false_ne_true

theorem filter_padRight
    (noSpace : keep ' ' = false) (width : Nat) (text : Text) :
    (padRight width text).filter keep = text.filter keep := by
  unfold padRight
  rw [List.filter_append, filter_of_space noSpace (fun _ => List.eq_of_mem_replicate),
    List.append_nil]

theorem filter_intercalate_space
    (noSpace : keep ' ' = false) (texts : List Text) :
    (([' '] : Text).intercalate texts).filter keep = texts.flatten.filter keep := by
  induction texts with
  | nil =>
      rfl
  | cons text rest inductionHypothesis =>
      cases rest with
      | nil =>
          simp [List.intercalate]
      | cons next others =>
          have gap : ([' '] : Text).filter keep = [] := filter_of_space noSpace (by simp)
          rw [List.intercalate_cons_cons, List.filter_append, List.filter_append,
            inductionHypothesis, gap, List.append_nil]
          conv => rhs; rw [List.flatten_cons, List.filter_append]

end Spacing

end Tidy.Text
