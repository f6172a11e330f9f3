import Tidy.Source

/-!
# Patches

A patch puts other items in place of a stretch of a list.  Patches that follow
one another are made all at once by `splice`, which only ever looks at the list
as it was.  Edits are patches of texts, and making them from the back comes to
the same.
-/

namespace Tidy

/-- A stretch of a list, and the items that take its place. -/
structure Patch (Item : Type) where
  start : Nat
  stop : Nat
  items : List Item
  deriving DecidableEq

namespace Patch

variable {Item : Type}

/-- A list from a position on, with patches made all at once: what stands before
each patch, then its items, and at last what stands behind all of them. -/
def splice (whole : List Item) : Nat → List (Patch Item) → List Item
  | position, [] => whole.drop position
  | position, patch :: rest =>
      (whole.take patch.start).drop position ++ patch.items ++ splice whole patch.stop rest

/-- Patches that follow one another from a position on and stay within a limit. -/
def InOrder (limit : Nat) : Nat → List (Patch Item) → Prop
  | position, [] => position ≤ limit
  | position, patch :: rest =>
      position ≤ patch.start ∧ patch.start ≤ patch.stop ∧ InOrder limit patch.stop rest

/-- Between any two patches something stays. -/
def Apart (patches : List (Patch Item)) : Prop :=
  patches.Pairwise fun earlier later => earlier.stop < later.start

/-! ## Order -/

theorem InOrder.le_limit
    {limit position : Nat} {patches : List (Patch Item)}
    (inOrder : InOrder limit position patches) :
    position ≤ limit := by
  induction patches generalizing position with
  | nil =>
      exact inOrder
  | cons patch rest inductionHypothesis =>
      obtain ⟨starts, stops, restInOrder⟩ := inOrder
      have stopBound := inductionHypothesis restInOrder
      omega

theorem InOrder.of_le
    {limit position earlier : Nat} {patches : List (Patch Item)}
    (inOrder : InOrder limit position patches)
    (before : earlier ≤ position) :
    InOrder limit earlier patches := by
  cases patches with
  | nil =>
      exact Nat.le_trans before inOrder
  | cons patch rest =>
      obtain ⟨starts, stops, restInOrder⟩ := inOrder
      exact ⟨Nat.le_trans before starts, stops, restInOrder⟩

theorem InOrder.bounds
    {limit position : Nat} {patches : List (Patch Item)}
    (inOrder : InOrder limit position patches) :
    ∀ patch ∈ patches,
      position ≤ patch.start ∧ patch.start ≤ patch.stop ∧ patch.stop ≤ limit := by
  induction patches generalizing position with
  | nil =>
      intro patch member
      cases member
  | cons first rest inductionHypothesis =>
      obtain ⟨starts, stops, restInOrder⟩ := inOrder
      intro patch member
      rcases List.mem_cons.mp member with equal | later
      · rw [equal]
        exact ⟨starts, stops, restInOrder.le_limit⟩
      · obtain ⟨laterStarts, laterStops, laterLimit⟩ :=
          inductionHypothesis restInOrder patch later
        exact ⟨by omega, laterStops, laterLimit⟩

/-! ## Splicing -/

theorem take_append_gap
    (whole : List Item) {middle stop : Nat}
    (before : middle ≤ stop) :
    whole.take middle ++ (whole.take stop).drop middle = whole.take stop := by
  conv => rhs; rw [← List.take_append_drop middle (whole.take stop)]
  rw [List.take_take, Nat.min_eq_left before]

theorem drop_append_gap
    (whole : List Item) {position middle stop : Nat}
    (starts : position ≤ middle)
    (stops : middle ≤ stop) :
    (whole.take middle).drop position ++ (whole.take stop).drop middle =
      (whole.take stop).drop position := by
  have cutMiddle : whole.take middle = (whole.take stop).take middle := by
    rw [List.take_take, Nat.min_eq_left stops]
  have dropMiddle :
      (whole.take stop).drop middle =
        ((whole.take stop).drop position).drop (middle - position) := by
    rw [List.drop_drop, Nat.add_sub_cancel' starts]
  rw [cutMiddle, List.drop_take, dropMiddle, List.take_append_drop]

/-- What stands before the first patch is copied. -/
theorem splice_eq_append
    {whole : List Item} {position middle : Nat} {patches : List (Patch Item)}
    (before : position ≤ middle)
    (inOrder : InOrder whole.length middle patches) :
    splice whole position patches =
      (whole.take middle).drop position ++ splice whole middle patches := by
  cases patches with
  | nil =>
      have split : whole.drop position =
          (whole.take middle ++ whole.drop middle).drop position := by
        rw [List.take_append_drop]
      have bound : middle ≤ whole.length := inOrder
      simp only [splice]
      rw [split, List.drop_append_of_le_length]
      rw [List.length_take]
      omega
  | cons patch rest =>
      obtain ⟨starts, stops, restInOrder⟩ := inOrder
      have bound : patch.stop ≤ whole.length := restInOrder.le_limit
      simp only [splice]
      conv => lhs; rw [← take_append_gap whole starts]
      rw [List.drop_append_of_le_length, List.append_assoc, List.append_assoc,
        List.append_assoc]
      rw [List.length_take]
      omega

/-- A patch at the position comes first. -/
theorem splice_cons_here
    (whole : List Item) {position : Nat} (patch : Patch Item) (rest : List (Patch Item))
    (here : patch.start = position) :
    splice whole position (patch :: rest) = patch.items ++ splice whole patch.stop rest := by
  have nothing : (whole.take patch.start).drop position = [] := by
    apply List.drop_eq_nil_of_le
    rw [here, List.length_take]
    exact Nat.min_le_left ..
  rw [splice, nothing, List.nil_append]

/-- An item before the first patch is copied. -/
theorem splice_copy
    {front : List Item} (item : Item) {after : List Item} {position : Nat}
    {patches : List (Patch Item)}
    (here : front.length = position)
    (inOrder : InOrder (position + 1 + after.length) (position + 1) patches) :
    splice (front ++ item :: after) position patches =
      item :: splice ((front ++ [item]) ++ after) (position + 1) patches := by
  have frontLength : (front ++ [item]).length = position + 1 := by
    rw [List.length_append, here, List.length_singleton]
  have wholeLength : ((front ++ [item]) ++ after).length = position + 1 + after.length := by
    rw [List.length_append, frontLength]
  have regrouped : front ++ item :: after = (front ++ [item]) ++ after := by simp
  rw [regrouped, splice_eq_append (Nat.le_succ position) (by rw [wholeLength]; exact inOrder),
    List.take_left' frontLength, List.drop_left' here]
  rfl

/-! ## Items one by one -/

def KeepLengths (patches : List (Patch Item)) : Prop :=
  ∀ patch ∈ patches, patch.items.length = patch.stop - patch.start

theorem KeepLengths.tail
    {patch : Patch Item} {patches : List (Patch Item)}
    (keep : KeepLengths (patch :: patches)) :
    KeepLengths patches :=
  fun other member => keep other (List.mem_cons_of_mem patch member)

section Items

variable {whole : List Item} {position : Nat} {patches : List (Patch Item)}

/-- The items in front of a patch, those of the patch, and those behind it. -/
theorem splice_cons_getElem?
    {patch : Patch Item}
    (inOrder : InOrder whole.length position (patch :: patches))
    (keep : KeepLengths (patch :: patches))
    {index : Nat} (reached : position ≤ index) :
    (splice whole position (patch :: patches))[index - position]? =
      if index < patch.start then whole[index]?
      else if index < patch.stop then patch.items[index - patch.start]?
      else (splice whole patch.stop patches)[index - patch.stop]? := by
  obtain ⟨starts, stops, restInOrder⟩ := inOrder
  have stopBound := restInOrder.le_limit
  have itemsLength := keep patch List.mem_cons_self
  have gapLength : ((whole.take patch.start).drop position).length = patch.start - position := by
    rw [List.length_drop, List.length_take]
    omega
  rw [splice, List.append_assoc, List.getElem?_append, gapLength]
  by_cases before : index < patch.start
  · rw [if_pos (by omega), if_pos before, List.getElem?_drop, Nat.add_sub_cancel' reached,
      List.getElem?_take_of_lt before]
  · rw [if_neg (by omega), if_neg before, List.getElem?_append, itemsLength]
    have fromStart : index - position - (patch.start - position) = index - patch.start := by
      omega
    rw [fromStart]
    by_cases inside : index < patch.stop
    · rw [if_pos (by omega), if_pos inside]
    · rw [if_neg (by omega), if_neg inside]
      congr 1
      omega

/-- An item that no patch touches stays. -/
theorem splice_getElem?_of_outside
    (inOrder : InOrder whole.length position patches)
    (keep : KeepLengths patches)
    {index : Nat} (reached : position ≤ index)
    (outside : ∀ patch ∈ patches, ¬ (patch.start ≤ index ∧ index < patch.stop)) :
    (splice whole position patches)[index - position]? = whole[index]? := by
  induction patches generalizing position with
  | nil =>
      rw [splice, List.getElem?_drop, Nat.add_sub_cancel' reached]
  | cons patch rest inductionHypothesis =>
      have untouched := outside patch List.mem_cons_self
      rw [splice_cons_getElem? inOrder keep reached]
      by_cases before : index < patch.start
      · rw [if_pos before]
      · rw [if_neg before, if_neg (by omega)]
        exact inductionHypothesis inOrder.2.2 keep.tail (by omega)
          fun other member => outside other (List.mem_cons_of_mem patch member)

/-- An item of the result stands there or comes from a patch. -/
theorem splice_getElem?_cases
    (inOrder : InOrder whole.length position patches)
    (keep : KeepLengths patches)
    {index : Nat} (reached : position ≤ index)
    {item : Item}
    (found : (splice whole position patches)[index - position]? = some item) :
    whole[index]? = some item ∨ ∃ patch ∈ patches, item ∈ patch.items := by
  induction patches generalizing position with
  | nil =>
      rw [splice, List.getElem?_drop, Nat.add_sub_cancel' reached] at found
      exact Or.inl found
  | cons patch rest inductionHypothesis =>
      rw [splice_cons_getElem? inOrder keep reached] at found
      by_cases before : index < patch.start
      · rw [if_pos before] at found
        exact Or.inl found
      · rw [if_neg before] at found
        by_cases inside : index < patch.stop
        · rw [if_pos inside] at found
          exact Or.inr ⟨patch, List.mem_cons_self, List.mem_of_getElem? found⟩
        · rw [if_neg inside] at found
          rcases inductionHypothesis inOrder.2.2 keep.tail (by omega) found with
            stays | ⟨other, member, inItems⟩
          · exact Or.inl stays
          · exact Or.inr ⟨other, List.mem_cons_of_mem patch member, inItems⟩

theorem length_splice
    (inOrder : InOrder whole.length position patches)
    (keep : KeepLengths patches) :
    (splice whole position patches).length = whole.length - position := by
  induction patches generalizing position with
  | nil =>
      rw [splice, List.length_drop]
  | cons patch rest inductionHypothesis =>
      obtain ⟨starts, stops, restInOrder⟩ := inOrder
      have stopBound := restInOrder.le_limit
      rw [splice, List.length_append, List.length_append, keep patch List.mem_cons_self,
        inductionHypothesis restInOrder keep.tail, List.length_drop, List.length_take]
      omega

/-- Patches that change nothing put the items in place that stand there. -/
theorem items_eq_of_splice_eq
    (inOrder : InOrder whole.length position patches)
    (keep : KeepLengths patches)
    (unchanged : splice whole position patches = whole.drop position) :
    ∀ patch ∈ patches, patch.items = (whole.take patch.stop).drop patch.start := by
  induction patches generalizing position with
  | nil =>
      intro patch member
      cases member
  | cons first rest inductionHypothesis =>
      obtain ⟨starts, stops, restInOrder⟩ := inOrder
      have stopBound := restInOrder.le_limit
      have cutAtStop :
          splice whole position [] =
            (whole.take first.stop).drop position ++ splice whole first.stop [] :=
        splice_eq_append (Nat.le_trans starts stops) stopBound
      rw [splice, splice, ← drop_append_gap whole starts stops, ← unchanged, splice,
        List.append_assoc, List.append_assoc] at cutAtStop
      have itemsLength :
          first.items.length = ((whole.take first.stop).drop first.start).length := by
        rw [keep first List.mem_cons_self, List.length_drop, List.length_take]
        omega
      obtain ⟨sameItems, sameRest⟩ :=
        List.append_inj (List.append_cancel_left cutAtStop) itemsLength
      exact List.forall_mem_cons.mpr
        ⟨sameItems, inductionHypothesis restInOrder keep.tail sameRest⟩

end Items

end Patch

namespace Edit

open Patch

def patch (edit : Edit) : Patch CodePoint :=
  ⟨edit.start.toNat, edit.stop.toNat, edit.text⟩

def FromFront (edit : Edit) : Prop :=
  0 ≤ edit.start ∧ 0 ≤ edit.stop

theorem apply_of_fromFront
    {edit : Edit} (fromFront : FromFront edit) (text : Text) :
    edit.apply text =
      text.take edit.patch.start ++ edit.text ++ text.drop edit.patch.stop := by
  have cutStart : Index.cut text.length edit.start = min edit.start.toNat text.length := by
    rw [Index.cut, if_neg (Int.not_lt.mpr fromFront.1)]
  have cutStop : Index.cut text.length edit.stop = min edit.stop.toNat text.length := by
    rw [Index.cut, if_neg (Int.not_lt.mpr fromFront.2)]
  unfold apply patch
  rw [cutStart, cutStop, ← List.take_eq_take_min, ← List.drop_eq_drop_min]

/-- Made from the back, edits leave what stands before them and splice the rest. -/
theorem foldr_apply
    {text : Text} {position : Nat} {edits : List Edit}
    (fromFront : ∀ edit ∈ edits, FromFront edit)
    (inOrder : InOrder text.length position (edits.map patch)) :
    edits.foldr (fun edit current => edit.apply current) text =
      text.take position ++ splice text position (edits.map patch) := by
  induction edits generalizing position with
  | nil =>
      exact (List.take_append_drop position text).symm
  | cons edit rest inductionHypothesis =>
      obtain ⟨starts, stops, restInOrder⟩ := inOrder
      have stopBound : edit.patch.stop ≤ text.length := restInOrder.le_limit
      have stopLength : (text.take edit.patch.stop).length = edit.patch.stop := by
        rw [List.length_take, Nat.min_eq_left stopBound]
      rw [List.foldr_cons,
        inductionHypothesis (fun other member => fromFront other (List.mem_cons_of_mem edit member))
          restInOrder,
        apply_of_fromFront (fromFront edit List.mem_cons_self)]
      have taken :
          (text.take edit.patch.stop ++
              splice text edit.patch.stop (rest.map patch)).take edit.patch.start =
            text.take edit.patch.start := by
        rw [List.take_append_of_le_length (by omega), List.take_take, Nat.min_eq_left stops]
      have dropped :
          (text.take edit.patch.stop ++
              splice text edit.patch.stop (rest.map patch)).drop edit.patch.stop =
            splice text edit.patch.stop (rest.map patch) :=
        List.drop_left' stopLength
      rw [taken, dropped, List.map_cons, splice]
      conv => lhs; rw [← take_append_gap text starts]
      simp only [List.append_assoc]
      rfl

/-- Edits with rising starts are told apart by them. -/
theorem eq_of_start_eq
    {edits : List Edit}
    (rising : edits.Pairwise fun earlier later => earlier.start < later.start)
    {left right : Edit}
    (leftMember : left ∈ edits)
    (rightMember : right ∈ edits)
    (sameStart : left.start = right.start) :
    left = right := by
  have told :
      ∀ ⦃one⦄, one ∈ edits → ∀ ⦃other⦄, other ∈ edits → one.start = other.start → one = other := by
    apply List.Pairwise.forall_of_forall_of_flip
    · intro edit _ _
      rfl
    · exact rising.imp fun step same => by omega
    · exact rising.imp fun step same => by omega
  exact told leftMember rightMember sameStart

/-- Sorting by falling starts reverses edits with rising starts, in whatever order they are
given. -/
theorem mergeSort_eq_reverse_of_perm
    {edits given : List Edit}
    (rising : edits.Pairwise fun earlier later => earlier.start < later.start)
    (permuted : given.Perm edits) :
    (given.mergeSort fun left right => decide (right.start ≤ left.start)) = edits.reverse := by
  have sorted :
      (given.mergeSort fun left right => decide (right.start ≤ left.start)).Pairwise
        fun left right => decide (right.start ≤ left.start) = true := by
    apply List.pairwise_mergeSort
    · intro first second third firstStep secondStep
      simp only [decide_eq_true_eq] at firstStep secondStep ⊢
      omega
    · intro left right
      simp only [Bool.or_eq_true, decide_eq_true_eq]
      omega
  have reversed :
      edits.reverse.Pairwise fun left right => decide (right.start ≤ left.start) = true := by
    rw [List.pairwise_reverse]
    exact rising.imp fun step => by simpa using Int.le_of_lt step
  have sortedPerm :
      (given.mergeSort fun left right => decide (right.start ≤ left.start)).Perm edits.reverse :=
    ((List.mergeSort_perm ..).trans permuted).trans (List.reverse_perm edits).symm
  refine sortedPerm.eq_of_pairwise ?_ sorted reversed
  intro left right leftMember rightMember leftFirst rightFirst
  simp only [decide_eq_true_eq] at leftFirst rightFirst
  exact eq_of_start_eq rising (permuted.mem_iff.mp (List.mem_mergeSort.mp leftMember))
    (List.mem_reverse.mp rightMember) (by omega)

theorem mergeSort_eq_reverse
    {edits : List Edit}
    (rising : edits.Pairwise fun earlier later => earlier.start < later.start) :
    (edits.mergeSort fun left right => decide (right.start ≤ left.start)) = edits.reverse :=
  mergeSort_eq_reverse_of_perm rising (.refl edits)

/-- Edits with rising starts that follow one another are made all at once. -/
theorem applyAll_eq_splice
    {text : Text} {edits : List Edit}
    (fromFront : ∀ edit ∈ edits, FromFront edit)
    (rising : edits.Pairwise fun earlier later => earlier.start < later.start)
    (inOrder : InOrder text.length 0 (edits.map patch)) :
    applyAll edits text = splice text 0 (edits.map patch) := by
  unfold applyAll
  rw [mergeSort_eq_reverse rising, List.foldl_reverse, foldr_apply fromFront inOrder]
  rfl

/-- The order in which edits with different starts are given makes no difference. -/
theorem applyAll_eq_of_perm
    {edits given : List Edit} (text : Text)
    (rising : edits.Pairwise fun earlier later => earlier.start < later.start)
    (permuted : given.Perm edits) :
    applyAll given text = applyAll edits text := by
  unfold applyAll
  rw [mergeSort_eq_reverse_of_perm rising permuted, mergeSort_eq_reverse rising]

@[simp]
theorem applyAll_nil
    (text : Text) :
    applyAll [] text = text := by
  simp [applyAll]

/-! ## Edits in any order -/

/-- An edit of some characters that stand in a text. -/
structure Within (text : Text) (edit : Edit) : Prop where
  fromFront : 0 ≤ edit.start
  nonempty : edit.start < edit.stop
  inside : edit.stop ≤ text.length

/-- Whether one of two edits stops where the other one starts, or before. -/
def Disjoint (left right : Edit) : Prop :=
  left.stop ≤ right.start ∨ right.stop ≤ left.start

def ascending (edits : List Edit) : List Edit :=
  edits.mergeSort fun left right => decide (left.start ≤ right.start)

theorem ascending_perm
    (edits : List Edit) :
    (ascending edits).Perm edits :=
  List.mergeSort_perm ..

section Disjoint

variable {text : Text} {edits : List Edit}

/-- Disjoint edits in the order of their starts follow one another. -/
theorem pairwise_ascending
    (within : ∀ edit ∈ edits, edit.Within text)
    (disjoint : edits.Pairwise Disjoint) :
    (ascending edits).Pairwise fun earlier later => earlier.stop ≤ later.start := by
  have sorted :
      (ascending edits).Pairwise fun left right => decide (left.start ≤ right.start) = true := by
    apply List.pairwise_mergeSort
    · intro first second third firstStep secondStep
      simp only [decide_eq_true_eq] at firstStep secondStep ⊢
      omega
    · intro left right
      simp only [Bool.or_eq_true, decide_eq_true_eq]
      omega
  have stillDisjoint : (ascending edits).Pairwise Disjoint :=
    (ascending_perm edits).symm.pairwise disjoint fun apart => apart.symm
  refine (sorted.and stillDisjoint).imp_of_mem ?_
  rintro left right _ rightMember ⟨startsFirst, stopsFirst | stopsBefore⟩
  · exact stopsFirst
  · have nonempty := (within right ((ascending_perm edits).mem_iff.mp rightMember)).nonempty
    have startsFirst := of_decide_eq_true startsFirst
    omega

/-- Edits of a text that follow one another are patches in order. -/
theorem inOrder_of_pairwise
    {position : Nat}
    (within : ∀ edit ∈ edits, edit.Within text)
    (following : edits.Pairwise fun earlier later => earlier.stop ≤ later.start)
    (reached : ∀ edit ∈ edits, (position : Int) ≤ edit.start)
    (bound : position ≤ text.length) :
    InOrder text.length position (edits.map patch) := by
  induction edits generalizing position with
  | nil =>
      exact bound
  | cons edit rest inductionHypothesis =>
      obtain ⟨editWithin, restWithin⟩ := List.forall_mem_cons.mp within
      obtain ⟨editFollowed, restFollowing⟩ := List.pairwise_cons.mp following
      obtain ⟨fromFront, nonempty, inside⟩ := editWithin
      have starts := reached edit List.mem_cons_self
      have stops : ((edit.patch.stop : Nat) : Int) = edit.stop := Int.toNat_of_nonneg (by omega)
      refine ⟨?_, ?_, inductionHypothesis restWithin restFollowing ?_ (by omega)⟩
      · simp only [patch]
        omega
      · simp only [patch]
        omega
      · intro later member
        rw [stops]
        exact editFollowed later member

/-- However disjoint edits are ordered, making them is splicing them all at once into the
text as it was: by rising starts, what stands before each edit and then its own text, and at
last what stands behind all of them. -/
theorem applyAll_eq_splice_of_disjoint
    (within : ∀ edit ∈ edits, edit.Within text)
    (disjoint : edits.Pairwise Disjoint) :
    ((ascending edits).Pairwise fun earlier later => earlier.stop ≤ later.start) ∧
      ∀ given : List Edit, given.Perm edits →
        applyAll given text = splice text 0 ((ascending edits).map patch) := by
  have following := pairwise_ascending within disjoint
  refine ⟨following, ?_⟩
  intro given permuted
  have sortedWithin : ∀ edit ∈ ascending edits, edit.Within text :=
    fun edit member => within edit ((ascending_perm edits).mem_iff.mp member)
  have rising : (ascending edits).Pairwise fun earlier later => earlier.start < later.start := by
    refine following.imp_of_mem ?_
    intro earlier later member _ stopsFirst
    have nonempty := (sortedWithin earlier member).nonempty
    omega
  have fromFront : ∀ edit ∈ ascending edits, edit.FromFront := by
    intro edit member
    obtain ⟨fromFront, nonempty, _⟩ := sortedWithin edit member
    exact ⟨fromFront, by omega⟩
  have inOrder : InOrder text.length 0 ((ascending edits).map patch) :=
    inOrder_of_pairwise sortedWithin following
      (fun edit member => (sortedWithin edit member).fromFront) (Nat.zero_le _)
  rw [applyAll_eq_of_perm text rising (permuted.trans (ascending_perm edits).symm),
    applyAll_eq_splice fromFront rising inOrder]

end Disjoint

/-- A longer text at the front, nothing in place of the characters right behind it, and a
shorter text at the end, given from the back. -/
def scatteredEdits : List Edit :=
  [⟨4, 6, ['z']⟩, ⟨0, 1, ['x', 'y']⟩, ⟨1, 3, []⟩]

theorem applyAll_eq_splice_of_disjoint_scattered :
    (∀ edit ∈ scatteredEdits, edit.Within "abcdef") ∧
      scatteredEdits.Pairwise Disjoint ∧
      applyAll scatteredEdits ("abcdef" : Text) = ("xydz" : Text) ∧
      applyAll scatteredEdits.reverse ("abcdef" : Text) = ("xydz" : Text) := by
  have within : ∀ edit ∈ scatteredEdits, edit.Within ("abcdef" : Text) := by
    intro edit member
    simp only [scatteredEdits, List.mem_cons, List.not_mem_nil, or_false] at member
    rcases member with rfl | rfl | rfl <;> exact ⟨by decide, by decide, by decide⟩
  have disjoint : scatteredEdits.Pairwise Disjoint := by
    unfold scatteredEdits Disjoint
    decide
  have sorted : ascending scatteredEdits = [⟨0, 1, ['x', 'y']⟩, ⟨1, 3, []⟩, ⟨4, 6, ['z']⟩] := by
    simp [ascending, scatteredEdits, List.mergeSort, List.MergeSort.Internal.splitInTwo]
  have spliced := (applyAll_eq_splice_of_disjoint within disjoint).2
  rw [sorted] at spliced
  exact ⟨within, disjoint, spliced scatteredEdits (.refl _),
    spliced scatteredEdits.reverse (List.reverse_perm _)⟩

end Edit

end Tidy
