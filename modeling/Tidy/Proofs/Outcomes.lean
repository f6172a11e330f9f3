import Mathlib.Data.List.Forall2

/-!
# Outcomes

A sequence of steps gives a result when each step does, and otherwise the problem of the
first step that does not.  The same holds for a list whose items are read one by one.
-/

namespace Tidy.Outcome

variable {Item Read Problem First Second : Type}

/-! ## Two steps -/

theorem bind_eq_error_iff
    {first : Except Problem First} {next : First → Except Problem Second} {problem : Problem} :
    first >>= next = .error problem ↔
      first = .error problem ∨ ∃ read, first = .ok read ∧ next read = .error problem := by
  cases first with
  | error other =>
      constructor
      · intro failed
        exact Or.inl (by cases failed; rfl)
      · rintro (failed | ⟨read, isOk, _⟩)
        · cases failed
          rfl
        · cases isOk
  | ok read =>
      constructor
      · intro failed
        exact Or.inr ⟨read, rfl, failed⟩
      · rintro (failed | ⟨other, isOk, failed⟩)
        · cases failed
        · cases isOk
          exact failed

theorem bind_eq_ok_iff
    {first : Except Problem First} {next : First → Except Problem Second} {result : Second} :
    first >>= next = .ok result ↔ ∃ read, first = .ok read ∧ next read = .ok result := by
  cases first with
  | error other =>
      constructor
      · intro isOk
        cases isOk
      · rintro ⟨read, isOk, _⟩
        cases isOk
  | ok read =>
      constructor
      · intro isOk
        exact ⟨read, rfl, isOk⟩
      · rintro ⟨other, same, isOk⟩
        cases same
        exact isOk

/-- A last step that cannot fail. -/
theorem bind_pure_eq_ok_iff
    {first : Except Problem First} {convert : First → Second} {result : Second} :
    (first >>= fun read => pure (convert read)) = .ok result ↔
      ∃ read, first = .ok read ∧ convert read = result := by
  rw [bind_eq_ok_iff]
  constructor
  · rintro ⟨read, isOk, converted⟩
    exact ⟨read, isOk, Except.ok.inj converted⟩
  · rintro ⟨read, isOk, rfl⟩
    exact ⟨read, isOk, rfl⟩

theorem map_eq_error_iff
    {first : Except Problem First} {convert : First → Second} {problem : Problem} :
    first.map convert = .error problem ↔ first = .error problem := by
  cases first <;> simp [Except.map]

theorem map_eq_ok_iff
    {first : Except Problem First} {convert : First → Second} :
    (∃ result, first.map convert = .ok result) ↔ ∃ read, first = .ok read := by
  cases first <;> simp [Except.map]

/-! ## Item by item -/

/-- Whether an item cannot be read and all items in front of it can. -/
def StopsAt (read : Item → Except Problem Read) (items : List Item) (problem : Problem) : Prop :=
  ∃ before item after, items = before ++ item :: after ∧
    (∀ earlier ∈ before, ∃ result, read earlier = .ok result) ∧ read item = .error problem

theorem stopsAt_cons_iff
    {read : Item → Except Problem Read} {item : Item} {rest : List Item} {problem : Problem} :
    StopsAt read (item :: rest) problem ↔
      read item = .error problem ∨
        (∃ result, read item = .ok result) ∧ StopsAt read rest problem := by
  constructor
  · rintro ⟨before, stopping, after, split, readable, failed⟩
    cases before with
    | nil =>
        cases split
        exact Or.inl failed
    | cons first others =>
        cases split
        obtain ⟨firstReadable, othersReadable⟩ := List.forall_mem_cons.mp readable
        exact Or.inr ⟨firstReadable, others, stopping, after, rfl, othersReadable, failed⟩
  · rintro (failed | ⟨isReadable, before, stopping, after, rfl, readable, failed⟩)
    · exact ⟨[], item, rest, rfl, by simp, failed⟩
    · exact ⟨item :: before, stopping, after, rfl,
        List.forall_mem_cons.mpr ⟨isReadable, readable⟩, failed⟩

theorem mapM_eq_error_iff
    {read : Item → Except Problem Read} {items : List Item} {problem : Problem} :
    items.mapM read = .error problem ↔ StopsAt read items problem := by
  induction items with
  | nil =>
      constructor
      · intro failed
        cases failed
      · rintro ⟨before, item, after, split, _⟩
        cases before <;> cases split
  | cons item rest inductionHypothesis =>
      rw [List.mapM_cons, bind_eq_error_iff, stopsAt_cons_iff, ← inductionHypothesis]
      have restFails (result : Read) :
          (rest.mapM read >>= fun results => pure (result :: results)) = .error problem ↔
            rest.mapM read = .error problem := by
        rw [bind_eq_error_iff]
        constructor
        · rintro (failed | ⟨_, _, failed⟩)
          · exact failed
          · cases failed
        · exact Or.inl
      simp only [restFails, exists_and_right]

theorem mapM_eq_ok_iff
    {read : Item → Except Problem Read} {items : List Item} :
    (∃ results, items.mapM read = .ok results) ↔
      ∀ item ∈ items, ∃ result, read item = .ok result := by
  induction items with
  | nil =>
      exact ⟨fun _ _ member => absurd member List.not_mem_nil, fun _ => ⟨[], rfl⟩⟩
  | cons item rest inductionHypothesis =>
      rw [List.forall_mem_cons, ← inductionHypothesis, List.mapM_cons]
      constructor
      · rintro ⟨results, isOk⟩
        obtain ⟨result, isRead, restOk⟩ := bind_eq_ok_iff.mp isOk
        obtain ⟨others, othersRead, _⟩ := bind_eq_ok_iff.mp restOk
        exact ⟨⟨result, isRead⟩, ⟨others, othersRead⟩⟩
      · rintro ⟨⟨result, isRead⟩, ⟨others, othersRead⟩⟩
        exact ⟨result :: others, by rw [isRead, othersRead]; rfl⟩

theorem forall₂_of_mapM
    {read : Item → Except Problem Read}
    {items : List Item} {results : List Read}
    (isRead : items.mapM read = .ok results) :
    List.Forall₂ (fun item result => read item = .ok result) items results := by
  induction items generalizing results with
  | nil =>
      cases isRead
      exact .nil
  | cons item rest inductionHypothesis =>
      rw [List.mapM_cons] at isRead
      obtain ⟨result, itemRead, restRead⟩ := bind_eq_ok_iff.mp isRead
      obtain ⟨others, othersRead, isResults⟩ := bind_eq_ok_iff.mp restRead
      cases isResults
      exact .cons itemRead (inductionHypothesis othersRead)

theorem exists_of_mem_mapM
    {read : Item → Except Problem Read}
    {items : List Item} {results : List Read}
    (isRead : items.mapM read = .ok results)
    {result : Read} (member : result ∈ results) :
    ∃ item ∈ items, read item = .ok result := by
  have related := forall₂_of_mapM isRead
  clear isRead
  induction related with
  | nil =>
      cases member
  | cons itemRead _ inductionHypothesis =>
      rcases List.mem_cons.mp member with rfl | later
      · exact ⟨_, List.mem_cons_self, itemRead⟩
      · obtain ⟨item, itemMember, isItem⟩ := inductionHypothesis later
        exact ⟨item, List.mem_cons_of_mem _ itemMember, isItem⟩

/-- Reading the results again gives what becomes of each item. -/
theorem mapM_of_mapM
    {Final : Type} {read : Item → Except Problem Read} {again : Read → Except Problem Final}
    {convert : Item → Final} {items : List Item} {results : List Read}
    (isRead : items.mapM read = .ok results)
    (returns : ∀ item ∈ items, ∀ result, read item = .ok result →
      again result = .ok (convert item)) :
    results.mapM again = .ok (items.map convert) := by
  induction items generalizing results with
  | nil =>
      cases isRead
      rfl
  | cons item rest inductionHypothesis =>
      obtain ⟨itemReturns, restReturns⟩ := List.forall_mem_cons.mp returns
      rw [List.mapM_cons] at isRead
      obtain ⟨result, itemRead, restRead⟩ := bind_eq_ok_iff.mp isRead
      obtain ⟨others, othersRead, rfl⟩ := bind_pure_eq_ok_iff.mp restRead
      rw [List.mapM_cons, itemReturns result itemRead,
        inductionHypothesis othersRead restReturns]
      rfl

end Tidy.Outcome
