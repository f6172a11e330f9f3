import Mathlib.Order.Bounds.Basic
import Tidy.Proofs.Runs

/-!
# The `from` clause of an import

The specifier list of an import is what stands in front of its `from` clause.  The clause
starts at the least place where the word `from` is bounded on both sides; occurrences inside
other words, at the very beginning or beside a comma are passed over.  Only an import without
such a place has an empty specifier list.
-/

namespace Tidy

/-- A text that does not start with a blank is not trimmed away. -/
theorem Text.strip_ne_nil_of_startsTight
    {text : Text}
    (tight : StartsTight text)
    (filled : text ≠ []) :
    text.strip ≠ [] := by
  obtain ⟨first, rest, rfl⟩ := List.exists_cons_of_ne_nil filled
  intro empty
  have kept : first ∈ squash (first :: rest) :=
    List.mem_filter.mpr ⟨List.mem_cons_self, by rw [tight first rfl]; rfl⟩
  rw [← squash_strip, empty] at kept
  cases kept

namespace Import

open Text

/-! ## What leads up to the specifiers -/

/-- The word `type`, bounded by a blank or by what opens a specifier list. -/
def Qualified (text : Text) : Prop :=
  ∃ character rest, text = typeWord ++ character :: rest ∧
    (isBlank character = true ∨ character = '\x7b' ∨ character = '*')

/-- The text of an import and its body: blanks, the word `import`, blanks, and then the body,
which does not start with a blank, or the qualifier `type` in front of it. -/
inductive LeadsTo : Text → Text → Prop
  | plain {margin gap body : Text} :
      (∀ character ∈ margin, isBlank character = true) →
      (∀ character ∈ gap, isBlank character = true) →
      StartsTight body →
      ¬ Qualified body →
      LeadsTo (margin ++ (importWord ++ (gap ++ body))) body
  | qualified {margin gap typeGap body : Text} :
      (∀ character ∈ margin, isBlank character = true) →
      (∀ character ∈ gap, isBlank character = true) →
      (∀ character ∈ typeGap, isBlank character = true) →
      StartsTight body →
      Qualified (typeWord ++ (typeGap ++ body)) →
      LeadsTo (margin ++ (importWord ++ (gap ++ (typeWord ++ (typeGap ++ body))))) body

theorem isTypeOnly_iff
    (body : Text) :
    isTypeOnly body = true ↔ Qualified body := by
  unfold isTypeOnly Qualified
  rw [Bool.and_eq_true, List.isPrefixOf_iff_prefix]
  constructor
  · rintro ⟨⟨behind, rfl⟩, bounded⟩
    rw [List.drop_left] at bounded
    cases behind with
    | nil =>
        cases bounded
    | cons character rest =>
        exact ⟨character, rest, rfl, by simpa [opensSpecifiers] using bounded⟩
  · rintro ⟨character, rest, rfl, bounded⟩
    refine ⟨List.prefix_append _ _, ?_⟩
    rw [List.drop_left]
    simpa [opensSpecifiers] using bounded

theorem startsTight_unqualified
    (text : Text) :
    StartsTight (unqualified (body text)) := by
  unfold unqualified
  split
  · exact startsTight_stripLeft _
  · exact startsTight_stripLeft _

/-- The body of an import is what its words lead up to. -/
theorem leadsTo_unqualified
    {statement : Statement}
    (starts : isStart statement.first = true) :
    LeadsTo statement.text (unqualified (body statement.text)) := by
  obtain ⟨rest, split, _⟩ := (isStart_iff statement.first).mp starts
  obtain ⟨tail, isText⟩ := statement.exists_text_eq
  have stripped : statement.text.stripLeft = importWord ++ (rest ++ tail) := by
    rw [isText, stripLeft_append (by rw [split]; exact List.cons_ne_nil _ _), split,
      List.append_assoc]
  have isBody : body statement.text = stripLeft (rest ++ tail) := by
    rw [body, stripped, List.drop_left]
  obtain ⟨margin, marginSplit, marginBlank⟩ := exists_append_stripLeft statement.text
  obtain ⟨gap, gapSplit, gapBlank⟩ := exists_append_stripLeft (rest ++ tail)
  rw [← isBody] at gapSplit
  have reads : statement.text = margin ++ (importWord ++ (gap ++ body statement.text)) := by
    rw [← gapSplit, ← stripped, ← marginSplit]
  unfold unqualified
  split
  · rename_i typeOnly
    obtain ⟨character, behind, shape, bounded⟩ := (isTypeOnly_iff _).mp typeOnly
    obtain ⟨typeGap, typeSplit, typeBlank⟩ := exists_append_stripLeft (character :: behind)
    rw [shape, typeSplit] at reads
    rw [shape, List.drop_left, reads]
    refine .qualified marginBlank gapBlank typeBlank (startsTight_stripLeft _) ?_
    rw [← typeSplit]
    exact ⟨character, behind, rfl, bounded⟩
  · rename_i notTypeOnly
    conv => lhs; rw [reads]
    refine .plain marginBlank gapBlank ?_ (mt (isTypeOnly_iff _).mpr notTypeOnly)
    rw [isBody]
    exact startsTight_stripLeft _

/-! ## Bounded words -/

/-- The word `from` stands at an index of a text, though not at its beginning, with a blank
or a closing brace right before it and a blank, a quote or the end right behind it. -/
structure FromAt (text : Text) (index : Nat) : Prop where
  positive : 0 < index
  word : fromWord <+: text.drop index
  left : ∃ before, text[index - 1]? = some before ∧
    (isBlank before = true ∨ before = '\x7d')
  right : ∀ after, text[index + fromWord.length]? = some after →
    isBlank after = true ∨ after = '"' ∨ after = '\'' ∨ after = '\x60'

theorem boundsLeft_some_iff
    (before : CodePoint) :
    boundsLeft (some before) = true ↔ isBlank before = true ∨ before = '\x7d' := by
  simp [boundsLeft]

theorem boundsRight_iff
    (behind : Option CodePoint) :
    boundsRight behind = true ↔
      ∀ after, behind = some after →
        isBlank after = true ∨ after = '"' ∨ after = '\'' ∨ after = '\x60' := by
  cases behind with
  | none =>
      simp [boundsRight]
  | some character =>
      simp [boundsRight, isQuote, or_assoc]

/-- The search tests at each place whether the clause starts there. -/
theorem startsFrom_iff_fromAt
    (front rest : Text) :
    startsFrom front.getLast? rest = true ↔ FromAt (front ++ rest) front.length := by
  have behind : (front ++ rest)[front.length + fromWord.length]? =
      (rest.drop fromWord.length).head? := by
    rw [List.getElem?_append_right (Nat.le_add_right ..), Nat.add_sub_cancel_left,
      List.head?_drop]
  unfold startsFrom
  rw [Bool.and_eq_true, Bool.and_eq_true, List.isPrefixOf_iff_prefix, boundsRight_iff, ← behind]
  rcases List.eq_nil_or_concat front with rfl | ⟨init, before, rfl⟩
  · constructor
    · rintro ⟨⟨_, isBounded⟩, _⟩
      cases isBounded
    · rintro ⟨positive, _, _, _⟩
      cases positive
  · have atBefore :
        (init.concat before ++ rest)[(init.concat before).length - 1]? = some before := by
      simp
    rw [List.concat_eq_append, List.getLast?_concat, boundsLeft_some_iff,
      ← List.concat_eq_append]
    constructor
    · rintro ⟨⟨word, bounded⟩, right⟩
      exact ⟨by simp, by rwa [List.drop_left], ⟨before, atBefore, bounded⟩, right⟩
    · rintro ⟨_, word, ⟨other, isOther, bounded⟩, right⟩
      rw [List.drop_left] at word
      cases atBefore.symm.trans isOther
      exact ⟨⟨word, bounded⟩, right⟩

theorem fromAt_iff
    (text : Text) (index : Nat) :
    FromAt text index ↔ startsFrom (text.take index).getLast? (text.drop index) = true := by
  by_cases inside : index ≤ text.length
  · rw [startsFrom_iff_fromAt, List.take_append_drop, List.length_take, Nat.min_eq_left inside]
  · have nothing : text.drop index = [] := List.drop_of_length_le (Nat.le_of_not_le inside)
    rw [nothing]
    refine iff_of_false (fun atIndex => ?_) Bool.false_ne_true
    have word := atIndex.word
    rw [nothing] at word
    exact absurd word (by decide)

instance (text : Text) (index : Nat) : Decidable (FromAt text index) :=
  decidable_of_iff' _ (fromAt_iff text index)

/-! ## The search -/

/-- What the search finds lies in front of the least place where the clause may start, the
part that is done with aside. -/
theorem isLeast_of_beforeFrom?
    {front rest found : Text}
    (isFound : beforeFrom? front.getLast? rest = some found) :
    found <+: rest ∧
      IsLeast {index | front.length ≤ index ∧ FromAt (front ++ rest) index}
        (front.length + found.length) := by
  induction rest generalizing front found with
  | nil =>
      cases isFound
  | cons character rest inductionHypothesis =>
      rw [beforeFrom?] at isFound
      split at isFound
      · rename_i starts
        cases isFound
        exact ⟨List.nil_prefix,
          ⟨Nat.le_add_right .., (startsFrom_iff_fromAt front _).mp starts⟩,
          fun _ member => member.1⟩
      · rename_i passedOver
        obtain ⟨later, isLater, rfl⟩ := Option.map_eq_some_iff.mp isFound
        have isLast : (front ++ [character]).getLast? = some character := List.getLast?_concat
        rw [← isLast] at isLater
        obtain ⟨isPrefix, ⟨_, atLater⟩, least⟩ := inductionHypothesis isLater
        rw [← List.append_cons] at atLater least
        have sameLength :
            (front ++ [character]).length + later.length =
              front.length + (character :: later).length := by
          simp only [List.length_append, List.length_cons, List.length_nil]
          omega
        rw [sameLength] at atLater least
        refine ⟨List.cons_prefix_cons.mpr ⟨rfl, isPrefix⟩,
          ⟨Nat.le_add_right .., atLater⟩, ?_⟩
        rintro index ⟨inRest, atIndex⟩
        have notHere : index ≠ front.length := by
          rintro rfl
          exact passedOver ((startsFrom_iff_fromAt front _).mpr atIndex)
        exact least ⟨by simp only [List.length_append, List.length_singleton]; omega, atIndex⟩

/-- A search that finds nothing has passed over no place where the clause starts. -/
theorem not_fromAt_of_beforeFrom?
    {front rest : Text}
    (isMissing : beforeFrom? front.getLast? rest = none) :
    ∀ index, front.length ≤ index → ¬ FromAt (front ++ rest) index := by
  induction rest generalizing front with
  | nil =>
      intro index inRest atIndex
      have word := atIndex.word
      rw [List.append_nil, List.drop_of_length_le inRest] at word
      exact absurd word (by decide)
  | cons character rest inductionHypothesis =>
      rw [beforeFrom?] at isMissing
      split at isMissing
      · cases isMissing
      · rename_i passedOver
        have isLast : (front ++ [character]).getLast? = some character := List.getLast?_concat
        rw [Option.map_eq_none_iff, ← isLast] at isMissing
        intro index inRest atIndex
        by_cases here : index = front.length
        · subst here
          exact passedOver ((startsFrom_iff_fromAt front _).mpr atIndex)
        · rw [List.append_cons] at atIndex
          refine inductionHypothesis isMissing index ?_ atIndex
          simp only [List.length_append, List.length_singleton]
          omega

/-- The search stops in front of the least place where the clause starts, and finds nothing
only when there is no such place. -/
theorem beforeFrom?_cases
    (text : Text) :
    (beforeFrom? none text = none ∧ ∀ index, ¬ FromAt text index) ∨
      ∃ index, beforeFrom? none text = some (text.take index) ∧
        IsLeast {place | FromAt text place} index := by
  cases result : beforeFrom? none text with
  | none =>
      have nowhere := @not_fromAt_of_beforeFrom? [] text result
      exact Or.inl ⟨rfl, fun index => nowhere index (Nat.zero_le _)⟩
  | some found =>
      obtain ⟨isPrefix, isLeast⟩ := @isLeast_of_beforeFrom? [] text found result
      simp only [List.length_nil, Nat.zero_le, true_and, Nat.zero_add, List.nil_append] at isLeast
      exact Or.inr ⟨found.length, by rw [← List.prefix_iff_eq_take.mp isPrefix], isLeast⟩

/-! ## Specifier lists -/

/-- Something is left in front of the clause, which does not start at the beginning. -/
theorem FromAt.strip_take_ne_nil
    {text : Text} {index : Nat}
    (atIndex : FromAt text index)
    (tight : StartsTight text) :
    strip (text.take index) ≠ [] := by
  obtain ⟨before, isBefore, _⟩ := atIndex.left
  have notEmpty : text ≠ [] := by
    rintro rfl
    cases isBefore
  obtain ⟨first, rest, rfl⟩ := List.exists_cons_of_ne_nil notEmpty
  obtain ⟨previous, rfl⟩ := Nat.exists_eq_add_one.mpr atIndex.positive
  refine strip_ne_nil_of_startsTight ?_ (List.cons_ne_nil _ _)
  intro character isFirst
  exact tight character isFirst

/-- The specifier list is the trimmed text in front of the least place of the body where the
`from` clause starts.  It is empty, and with it the length that orders the import, exactly
when there is no such place.  The body of an import is what follows the word `import` and
its qualifier. -/
theorem specifierList_exact
    (statement : Statement) :
    let body := unqualified (Import.body statement.text)
    (∀ index, IsLeast {place | FromAt body place} index →
        statement.specifierList = strip (body.take index)) ∧
      (statement.specifierList = [] ↔ ¬ ∃ index, FromAt body index) ∧
      (statement.specifierList.length = 0 ↔ ¬ ∃ index, FromAt body index) ∧
      (isStart statement.first = true → LeadsTo statement.text body) := by
  intro body
  rw [List.length_eq_zero_iff]
  rcases beforeFrom?_cases body with ⟨isMissing, nowhere⟩ | ⟨least, isFound, isLeast⟩
  · have isEmpty : statement.specifierList = [] := by
      rw [Statement.specifierList, isMissing]
    have noPlace : ¬ ∃ index, FromAt body index := not_exists.mpr nowhere
    refine ⟨?_, iff_of_true isEmpty noPlace, iff_of_true isEmpty noPlace, leadsTo_unqualified⟩
    intro index isLeast
    exact absurd isLeast.1 (nowhere index)
  · have isList : statement.specifierList = strip (body.take least) := by
      rw [Statement.specifierList, isFound]
    have filled : statement.specifierList ≠ [] := by
      rw [isList]
      exact isLeast.1.strip_take_ne_nil (startsTight_unqualified statement.text)
    have hasPlace : ¬ ¬ ∃ index, FromAt body index := not_not_intro ⟨least, isLeast.1⟩
    refine ⟨?_, iff_of_false filled hasPlace, iff_of_false filled hasPlace, leadsTo_unqualified⟩
    intro index alsoLeast
    rw [alsoLeast.unique isLeast, isList]

/-- An import with the word `from` behind a brace, beside commas and inside other words in
front of its clause. -/
def crowdedImport : Statement :=
  ⟨("import type \x7bfromage,from," : Text), ["  from, xfrom", "\x7dfrom\"x\""]⟩

theorem specifierList_exact_crowded :
    IsLeast {place | FromAt (unqualified (body crowdedImport.text)) place} 30 ∧
      crowdedImport.specifierList = ("\x7bfromage,from,\n  from, xfrom\n\x7d" : Text) ∧
      LeadsTo crowdedImport.text (unqualified (body crowdedImport.text)) := by
  have passedOver : ∀ place < 30, ¬ FromAt (unqualified (body crowdedImport.text)) place := by
    decide +kernel
  have isLeast : IsLeast {place | FromAt (unqualified (body crowdedImport.text)) place} 30 := by
    refine ⟨by decide +kernel, ?_⟩
    intro place atPlace
    exact Nat.le_of_not_lt fun earlier => passedOver place earlier atPlace
  obtain ⟨listed, _, _, leads⟩ := specifierList_exact crowdedImport
  exact ⟨isLeast, (listed 30 isLeast).trans (by decide +kernel), leads (by decide +kernel)⟩

end Import

end Tidy
