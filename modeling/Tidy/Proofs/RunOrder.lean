import Tidy.Proofs.Runs

/-!
# The order of a run

A run is written group by group, and in each group the longest specifier lists come
first.  This is one stable sort of the statements as they are written anew, and the
lines that are written are cut into the very same statements again.
-/

namespace Tidy.Import

/-! ## Stable sorts by a key -/

section StableSort

variable {Item Key : Type} [BEq Key] [LawfulBEq Key]
  {key : Item → Key} {before : Item → Item → Bool}

/-- A sort keeps the items of one key in their order. -/
theorem filter_key_mergeSort
    (transitive : ∀ first second third,
      before first second → before second third → before first third)
    (total : ∀ left right, before left right || before right left)
    (sameKey : ∀ left right, key left = key right → before left right = true)
    (items : List Item) (value : Key) :
    ((items.mergeSort before).filter fun item => key item == value) =
      items.filter fun item => key item == value := by
  have equalKeys :
      (items.filter fun item => key item == value).Pairwise
        fun left right => before left right = true := by
    apply List.pairwise_of_forall_mem_list
    intro left leftMember right rightMember
    have leftKey : key left = value := by simpa using (List.mem_filter.mp leftMember).2
    have rightKey : key right = value := by simpa using (List.mem_filter.mp rightMember).2
    exact sameKey left right (leftKey.trans rightKey.symm)
  have keptOrder :
      (items.filter fun item => key item == value).Sublist (items.mergeSort before) :=
    List.sublist_mergeSort transitive total equalKeys List.filter_sublist
  have inFilter := keptOrder.filter fun item => key item == value
  rw [List.filter_filter] at inFilter
  simp only [Bool.and_self] at inFilter
  have sameLength :=
    ((List.mergeSort_perm items before).filter fun item => key item == value).length_eq
  exact (inFilter.eq_of_length sameLength.symm).symm

theorem mem_of_filter_key
    {left right : List Item} {item : Item}
    (sameItems : ∀ value,
      (left.filter fun other => key other == value) = right.filter fun other => key other == value)
    (member : item ∈ left) :
    item ∈ right := by
  have kept : item ∈ left.filter fun other => key other == key item :=
    List.mem_filter.mpr ⟨member, beq_self_eq_true _⟩
  rw [sameItems (key item)] at kept
  exact (List.mem_filter.mp kept).1

/-- Two lists in order are equal when they hold the same items of every key in the same
order. -/
theorem eq_of_filter_key
    (antisymmetric : ∀ left right,
      before left right = true → before right left = true → key left = key right)
    {left right : List Item}
    (leftOrder : left.Pairwise fun first second => before first second = true)
    (rightOrder : right.Pairwise fun first second => before first second = true)
    (sameItems : ∀ value,
      (left.filter fun item => key item == value) = right.filter fun item => key item == value) :
    left = right := by
  induction left generalizing right with
  | nil =>
      cases right with
      | nil =>
          rfl
      | cons head tail =>
          have impossible := mem_of_filter_key (fun value => (sameItems value).symm)
            (List.mem_cons_self (a := head))
          cases impossible
  | cons first others inductionHypothesis =>
      cases right with
      | nil =>
          have impossible := mem_of_filter_key sameItems (List.mem_cons_self (a := first))
          cases impossible
      | cons head tail =>
          obtain ⟨firstBefore, othersOrder⟩ := List.pairwise_cons.mp leftOrder
          obtain ⟨headBefore, tailOrder⟩ := List.pairwise_cons.mp rightOrder
          have headKey : key first = key head := by
            rcases List.mem_cons.mp
                (mem_of_filter_key sameItems List.mem_cons_self) with rfl | firstInTail
            · rfl
            · rcases List.mem_cons.mp
                  (mem_of_filter_key (fun value => (sameItems value).symm) List.mem_cons_self) with
                rfl | headInOthers
              · rfl
              · exact antisymmetric first head (firstBefore head headInOthers)
                  (headBefore first firstInTail)
          have sameHead := sameItems (key head)
          simp only [List.filter_cons, headKey, beq_self_eq_true, if_true] at sameHead
          obtain ⟨rfl, -⟩ := List.cons.inj sameHead
          rw [inductionHypothesis othersOrder tailOrder]
          intro value
          have sameValue := sameItems value
          simp only [List.filter_cons] at sameValue
          split at sameValue
          · exact (List.cons.inj sameValue).2
          · exact sameValue

/-! Numbers are put in order with the greatest first. -/

theorem greatestFirst_trans
    (number : Item → Nat) (first second third : Item)
    (left : decide (number second ≤ number first) = true)
    (right : decide (number third ≤ number second) = true) :
    decide (number third ≤ number first) = true :=
  decide_eq_true (Nat.le_trans (of_decide_eq_true right) (of_decide_eq_true left))

theorem greatestFirst_total
    (number : Item → Nat) (left right : Item) :
    (decide (number right ≤ number left) || decide (number left ≤ number right)) = true := by
  rw [Bool.or_eq_true, decide_eq_true_eq, decide_eq_true_eq]
  exact Nat.le_total (number right) (number left)

theorem pairwise_greatestFirst
    (number : Item → Nat) (items : List Item) :
    (items.mergeSort fun left right => decide (number right ≤ number left)).Pairwise
      fun left right => number right ≤ number left := by
  have ordered :=
    List.pairwise_mergeSort (greatestFirst_trans number) (greatestFirst_total number) items
  exact ordered.imp of_decide_eq_true

theorem filter_greatestFirst
    (number : Item → Nat) (items : List Item) (value : Nat) :
    ((items.mergeSort fun left right => decide (number right ≤ number left)).filter
        fun item => number item == value) =
      items.filter fun item => number item == value := by
  apply filter_key_mergeSort (greatestFirst_trans _) (greatestFirst_total _)
  intro left right sameNumber
  exact decide_eq_true (Nat.le_of_eq sameNumber.symm)

end StableSort

/-! ## The order of statements -/

theorem Group.rank_injective
    {left right : Group}
    (sameRank : left.rank = right.rank) :
    left = right := by
  cases left <;> cases right <;> first | rfl | cases sameRank

namespace Statement

/-- What decides the place of a statement in a run. -/
def place (statement : Statement) : Group × Nat :=
  (statement.group, statement.specifierList.length)

/-- Whether a statement may come before another one: by the order of the groups, and in
one group by the length of the specifier lists, the longest first. -/
def mayPrecede (left right : Statement) : Bool :=
  decide (left.group.rank < right.group.rank) ||
    (left.group == right.group &&
      decide (right.specifierList.length ≤ left.specifierList.length))

theorem mayPrecede_iff
    (left right : Statement) :
    left.mayPrecede right = true ↔
      left.group.rank < right.group.rank ∨
        left.group = right.group ∧
          right.specifierList.length ≤ left.specifierList.length := by
  simp [mayPrecede]

theorem mayPrecede_trans
    (first second third : Statement)
    (left : first.mayPrecede second = true)
    (right : second.mayPrecede third = true) :
    first.mayPrecede third = true := by
  rw [mayPrecede_iff] at left right ⊢
  rcases left with lower | ⟨sameGroup, longer⟩
  · rcases right with lowerStill | ⟨sameGroup, _⟩
    · exact Or.inl (Nat.lt_trans lower lowerStill)
    · exact Or.inl (sameGroup ▸ lower)
  · rcases right with lower | ⟨sameStill, longerStill⟩
    · exact Or.inl (sameGroup ▸ lower)
    · exact Or.inr ⟨sameGroup.trans sameStill, Nat.le_trans longerStill longer⟩

theorem mayPrecede_total
    (left right : Statement) :
    (left.mayPrecede right || right.mayPrecede left) = true := by
  rw [Bool.or_eq_true, mayPrecede_iff, mayPrecede_iff]
  rcases Nat.lt_trichotomy left.group.rank right.group.rank with lower | sameRank | higher
  · exact Or.inl (Or.inl lower)
  · have sameGroup := Group.rank_injective sameRank
    rcases Nat.le_total right.specifierList.length left.specifierList.length with longer | shorter
    · exact Or.inl (Or.inr ⟨sameGroup, longer⟩)
    · exact Or.inr (Or.inr ⟨sameGroup.symm, shorter⟩)
  · exact Or.inr (Or.inl higher)

theorem mayPrecede_of_place_eq
    (left right : Statement)
    (samePlace : left.place = right.place) :
    left.mayPrecede right = true := by
  obtain ⟨sameGroup, sameLength⟩ := Prod.mk.inj samePlace
  exact (mayPrecede_iff left right).mpr (Or.inr ⟨sameGroup, Nat.le_of_eq sameLength.symm⟩)

theorem place_eq_of_mayPrecede
    (left right : Statement)
    (forth : left.mayPrecede right = true)
    (back : right.mayPrecede left = true) :
    left.place = right.place := by
  rw [mayPrecede_iff] at forth back
  rcases forth with lower | ⟨sameGroup, longer⟩
  · rcases back with higher | ⟨sameGroup, _⟩
    · omega
    · rw [sameGroup] at lower
      omega
  · rcases back with higher | ⟨_, shorter⟩
    · rw [sameGroup] at higher
      omega
    · exact Prod.ext sameGroup (Nat.le_antisymm shorter longer)

end Statement

/-! ## Runs -/

theorem pairwise_longestFirst
    (run : List Statement) :
    (longestFirst run).Pairwise fun left right =>
      right.specifierList.length ≤ left.specifierList.length :=
  pairwise_greatestFirst (fun statement : Statement => statement.specifierList.length) run

theorem filter_length_longestFirst
    (run : List Statement) (length : Nat) :
    ((longestFirst run).filter fun statement => statement.specifierList.length == length) =
      run.filter fun statement => statement.specifierList.length == length :=
  filter_greatestFirst (fun statement : Statement => statement.specifierList.length) run length

/-- The groups follow each other in their order, each with its longest lists first. -/
theorem pairwise_sort
    (run : List Statement) :
    (sort run).Pairwise fun left right => left.mayPrecede right = true := by
  have inGroup {group : Group} {statement : Statement}
      (member : statement ∈
        longestFirst ((run.map Statement.normalized).filter fun other => other.group == group)) :
      statement.group = group := by
    have inBucket := (longestFirst_perm _).mem_iff.mp member
    simpa using (List.mem_filter.mp inBucket).2
  refine List.pairwise_flatMap.mpr ⟨?_, ?_⟩
  · intro group _
    refine (pairwise_longestFirst _).imp_of_mem ?_
    intro left right leftMember rightMember longer
    exact (Statement.mayPrecede_iff left right).mpr
      (Or.inr ⟨(inGroup leftMember).trans (inGroup rightMember).symm, longer⟩)
  · have rising : Group.all.Pairwise fun lower higher => lower.rank < higher.rank := by
      decide
    refine rising.imp ?_
    intro lower higher below left leftMember right rightMember
    rw [Statement.mayPrecede_iff, inGroup leftMember, inGroup rightMember]
    exact Or.inl below

/-- Statements of one place keep their order. -/
theorem filter_place_sort
    (run : List Statement) (place : Group × Nat) :
    ((sort run).filter fun statement => statement.place == place) =
      (run.map Statement.normalized).filter fun statement => statement.place == place := by
  have split (statements : List Statement) :
      (statements.filter fun statement => statement.place == place) =
        (statements.filter fun statement => statement.group == place.1).filter
          fun statement => statement.specifierList.length == place.2 := by
    rw [List.filter_filter]
    apply List.filter_congr
    intro statement _
    rw [Bool.and_comm]
    rfl
  rw [split, split, filter_sort, filter_length_longestFirst]

/-- A run is put in order by one stable sort of its statements as they are written anew. -/
theorem sort_eq_mergeSort
    (run : List Statement) :
    sort run = (run.map Statement.normalized).mergeSort Statement.mayPrecede := by
  refine eq_of_filter_key Statement.place_eq_of_mayPrecede (pairwise_sort run)
    (List.pairwise_mergeSort Statement.mayPrecede_trans Statement.mayPrecede_total _) ?_
  intro place
  rw [filter_place_sort, filter_key_mergeSort Statement.mayPrecede_trans
    Statement.mayPrecede_total Statement.mayPrecede_of_place_eq]

/-- The run that starts at a line of a document, without any line when none does. -/
def runFrom (document : List Text) (start : Nat) : List Text :=
  (document.drop start).take (runLength (document.drop start))

theorem finished_of_mem_runFrom
    (document : List Text) (start : Nat) :
    ∀ statement ∈ statements (runFrom document start), statement.Finished := by
  have whole : runFrom document start ++
      (document.drop start).drop (runLength (document.drop start)) = document.drop start :=
    List.take_append_drop ..
  have isRun :
      runLength (runFrom document start ++
        (document.drop start).drop (runLength (document.drop start))) =
        (runFrom document start).length := by
    rw [whole, runFrom, List.length_take, Nat.min_eq_left (runLength_le _)]
  exact (finished_of_runLength isRun).1

/-- The lines of a run in order are cut into the statements of the run as they are written
anew, stably sorted by group and by the length of the specifier lists: no statement is lost
or torn, the groups rise, the lengths fall inside a group, and statements that are equal in
both keep their order. -/
theorem statements_sortLines_runFrom
    (document : List Text) (start : Nat) :
    let run := runFrom document start
    let units := (statements run).map Statement.normalized
    let written := statements (sortLines run)
    written = units.mergeSort Statement.mayPrecede ∧
      written.Perm units ∧
      (written.Pairwise fun left right =>
        left.group.rank ≤ right.group.rank ∧
          (left.group = right.group →
            right.specifierList.length ≤ left.specifierList.length)) ∧
      ∀ group length,
        (written.filter fun unit =>
            unit.group == group && unit.specifierList.length == length) =
          units.filter fun unit =>
            unit.group == group && unit.specifierList.length == length := by
  intro run units written
  have cutAgain : written = sort (statements run) :=
    statements_flatMap_lines (finished_of_mem_sort (finished_of_mem_runFrom document start))
  rw [cutAgain]
  refine ⟨sort_eq_mergeSort _, sort_perm _, ?_, ?_⟩
  · refine (pairwise_sort _).imp ?_
    intro left right precedes
    rcases (Statement.mayPrecede_iff left right).mp precedes with lower | ⟨sameGroup, longer⟩
    · refine ⟨Nat.le_of_lt lower, ?_⟩
      intro sameGroup
      rw [sameGroup] at lower
      omega
    · exact ⟨Nat.le_of_eq (congrArg Group.rank sameGroup), fun _ => longer⟩
  · intro group length
    exact filter_place_sort (statements run) (group, length)

end Tidy.Import
