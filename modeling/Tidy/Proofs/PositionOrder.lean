import Tidy.Proofs.Synchronization

/-!
# Positions in order

Editors may name positions that a document does not have.  A line past the end means the
last line, and a column past the end of a line means its end; line and column are brought
into the document on their own.  So a position below the last line keeps its column there,
and can lead to an offset in front of that of an earlier position.  Nowhere else does an
offset fall back, and a change of a range repeats some of the text exactly where one does.
-/

namespace Tidy

def Position.AtMost (left right : Position) : Prop :=
  left = right ∨ left.Before right

theorem Position.atMost_succ_iff
    (left right : Nat) (leftColumn rightColumn : Nat) :
    AtMost ⟨left + 1, leftColumn⟩ ⟨right + 1, rightColumn⟩ ↔
      AtMost ⟨left, leftColumn⟩ ⟨right, rightColumn⟩ := by
  simp only [AtMost, Before, mk.injEq]
  omega

theorem Text.reach_le_of_le
    {smaller larger : Nat}
    (order : smaller ≤ larger)
    (text : Text) :
    reach smaller text ≤ reach larger text := by
  induction text generalizing smaller larger with
  | nil =>
      simp [reach]
  | cons character rest inductionHypothesis =>
      cases smaller with
      | zero =>
          rw [reach]
          exact Nat.zero_le _
      | succ smaller =>
          obtain ⟨larger, rfl⟩ := Nat.exists_eq_succ_of_ne_zero (Nat.ne_zero_of_lt order)
          rw [reach, reach]
          apply Nat.succ_le_succ
          apply inductionHypothesis
          omega

namespace Line

/-- Whether a position below the last of some lines reaches fewer characters of that line
than another one that is on it or below it as well. -/
def FallsBackIn (lines : List Line) (left right : Position) : Prop :=
  ∃ last, lines.getLast? = some last ∧
    lines.length ≤ left.line + 1 ∧ lines.length ≤ right.line ∧
    Text.reach right.character last.text < Text.reach left.character last.text

theorem fallsBackIn_cons_iff
    (line next : Line) (others : List Line) (left right leftColumn rightColumn : Nat) :
    FallsBackIn (line :: next :: others) ⟨left + 1, leftColumn⟩ ⟨right + 1, rightColumn⟩ ↔
      FallsBackIn (next :: others) ⟨left, leftColumn⟩ ⟨right, rightColumn⟩ := by
  simp only [FallsBackIn, List.getLast?_cons_cons, List.length_cons, Nat.add_le_add_iff_right]

theorem offsetIn_le_iff
    {lines : List Line} {left right : Position}
    (order : left.AtMost right) :
    offsetIn 0 left lines ≤ offsetIn 0 right lines ↔ ¬ FallsBackIn lines left right := by
  induction lines generalizing left right with
  | nil =>
      simp [offsetIn, FallsBackIn]
  | cons line rest inductionHypothesis =>
      obtain ⟨leftLine, leftColumn⟩ := left
      obtain ⟨rightLine, rightColumn⟩ := right
      cases rest with
      | nil =>
          have inOrder :
              rightLine = 0 →
                Text.reach leftColumn line.text ≤
                  Text.reach rightColumn line.text := by
            intro isFirst
            apply Text.reach_le_of_le
            simp only [Position.AtMost, Position.Before, Position.mk.injEq] at order
            omega
          simp only [offsetIn, FallsBackIn, List.getLast?_singleton, Option.some.injEq,
            exists_eq_left', List.length_singleton]
          omega
      | cons next others =>
          have counted := Text.reach_le_length leftColumn line.text
          cases leftLine with
          | zero =>
              cases rightLine with
              | zero =>
                  have columns : leftColumn ≤ rightColumn := by
                    simp only [Position.AtMost, Position.Before, Position.mk.injEq] at order
                    omega
                  have inOrder := Text.reach_le_of_le columns line.text
                  simp [offsetIn, FallsBackIn, inOrder]
              | succ rightLine =>
                  have behind :
                      Text.reach leftColumn line.text ≤
                        line.width + offsetIn 0 ⟨rightLine, rightColumn⟩ (next :: others) := by
                    unfold Line.width
                    omega
                  simp only [offsetIn]
                  rw [offsetIn_eq_add]
                  simp [FallsBackIn, behind]
          | succ leftLine =>
              cases rightLine with
              | zero =>
                  simp [Position.AtMost, Position.Before] at order
              | succ rightLine =>
                  have later :=
                    inductionHypothesis ((Position.atMost_succ_iff ..).mp order)
                  simp only [offsetIn]
                  rw [offsetIn_eq_add, offsetIn_eq_add (0 + line.width) ⟨rightLine, rightColumn⟩,
                    fallsBackIn_cons_iff, ← later]
                  omega

end Line

namespace Document

/-- Whether the lines of a document lead a later position in front of an earlier one. -/
def FallsBack (document : Document) (left right : Position) : Prop :=
  ∃ last, document.lines.getLast? = some last ∧
    document.lines.length ≤ left.line + 1 ∧ document.lines.length ≤ right.line ∧
    Text.reach right.character last < Text.reach left.character last

theorem Tabled.fallsBack_iff
    {document : Document}
    (tabled : document.Tabled) (left right : Position) :
    document.FallsBack left right ↔ Line.FallsBackIn (Line.ofBreaks document.text) left right := by
  simp only [FallsBack, Line.FallsBackIn, tabled.lines_eq, List.getLast?_map, List.length_map,
    Option.map_eq_some_iff, exists_exists_and_eq_and]

/-- What stands in front of one offset and what stands behind another one share nothing
exactly when the offsets are in order. -/
theorem take_append_drop_sublist_iff
    {text : Text} {start stop : Nat}
    (startInside : start ≤ text.length)
    (stopInside : stop ≤ text.length) :
    (text.take start ++ text.drop stop).Sublist text ↔ start ≤ stop := by
  constructor
  · intro kept
    have noLonger := kept.length_le
    rw [List.length_append, List.length_take, List.length_drop] at noLonger
    omega
  · intro order
    have inFront : (text.take start).Sublist (text.take stop) :=
      (List.take_prefix_take_left order).sublist
    have whole := inFront.append_right (text.drop stop)
    rw [List.take_append_drop] at whole
    exact whole

/-- The offsets of two positions in order are in order, unless the later one falls back.  A
change between them, whatever changes came before, leaves some text in front and some text
behind, and these are parts of the old text that share nothing under the same condition. -/
theorem offsetAt_le_iff
    {document : Document}
    (tabled : document.Tabled)
    {left right : Position}
    (order : left.AtMost right)
    {start stop : Nat}
    (isStart : document.offsetAt left = .ok start)
    (isStop : document.offsetAt right = .ok stop) :
    (start ≤ stop ↔ ¬ document.FallsBack left right) ∧
      ∀ (earlier : Document) (changes : List Change) (inserted : Text)
        (before middle : Logged Workspace),
        changes.foldlM Workspace.applyChange earlier before = (.ok document, middle) →
        ∃ changed front back,
          (List.foldlM Workspace.applyChange earlier
              (changes ++ [{ text := inserted, range := some ⟨left, right⟩ }]) before).1 =
            .ok changed ∧
          changed.text = front ++ inserted ++ back ∧
          front <+: document.text ∧ back <:+ document.text ∧
          ((front ++ back).Sublist document.text ↔ ¬ document.FallsBack left right) := by
  obtain ⟨_, rfl⟩ := (tabled.offsetAt_eq_ok_iff ..).mp isStart
  obtain ⟨_, rfl⟩ := (tabled.offsetAt_eq_ok_iff ..).mp isStop
  have inOrder :
      document.text.offsetFor left ≤ document.text.offsetFor right ↔
        ¬ document.FallsBack left right := by
    rw [tabled.fallsBack_iff]
    exact Line.offsetIn_le_iff order
  refine ⟨inOrder, fun earlier changes inserted before middle made => ?_⟩
  let front := document.text.take (document.text.offsetFor left)
  let back := document.text.drop (document.text.offsetFor right)
  have isChanged : document.changed { text := inserted, range := some ⟨left, right⟩ } =
      .ok (front ++ inserted ++ back) := by
    simp only [changed, isStart, isStop]
    rfl
  refine ⟨document.update (front ++ inserted ++ back) document.version, front, back, ?_, rfl,
    List.take_prefix .., List.drop_suffix .., ?_⟩
  · rw [List.foldlM_append, Act.bind_apply, made]
    simp only
    rw [List.foldlM_cons, Workspace.applyChange, isChanged]
    rfl
  · rw [← inOrder]
    exact take_append_drop_sublist_iff (Text.offsetFor_le_length ..) (Text.offsetFor_le_length ..)

def brokenOnce : Document :=
  ofItem { uri := "file:///broken.ts", version := 1, text := "a😀\r\nbc" }

/-- A column past the end of the first line, and a column of a line that does not exist. -/
theorem offsetAt_le_iff_outside :
    Position.AtMost ⟨0, 9⟩ ⟨7, 1⟩ ∧
      brokenOnce.offsetAt ⟨0, 9⟩ = .ok 2 ∧ brokenOnce.offsetAt ⟨7, 1⟩ = .ok 5 ∧
      ¬ brokenOnce.FallsBack ⟨0, 9⟩ ⟨7, 1⟩ := by
  have order : Position.AtMost ⟨0, 9⟩ ⟨7, 1⟩ := Or.inr (Or.inl (by decide))
  have isStart : brokenOnce.offsetAt ⟨0, 9⟩ = .ok 2 := by decide
  have isStop : brokenOnce.offsetAt ⟨7, 1⟩ = .ok 5 := by decide
  have inOrder := (offsetAt_le_iff (ofItem_tabled _) order isStart isStop).1
  exact ⟨order, isStart, isStop, inOrder.mp (by decide)⟩

def unbroken : Document :=
  ofItem { uri := "file:///unbroken.ts", version := 1, text := "abc" }

/-- The start of the line below the last one falls back to the start of the last one, and a
change up to there repeats the line. -/
theorem offsetAt_fallsBack :
    Position.AtMost ⟨0, 3⟩ ⟨1, 0⟩ ∧
      unbroken.offsetAt ⟨0, 3⟩ = .ok 3 ∧ unbroken.offsetAt ⟨1, 0⟩ = .ok 0 ∧
      (Workspace.didChange unbroken.uri 2 [{ text := [], range := some ⟨⟨0, 3⟩, ⟨1, 0⟩⟩ }]
          (Workspace.holding unbroken)).1 =
        .ok (unbroken.update "abcabc" 2) :=
  ⟨Or.inr (Or.inl (by decide)), by decide, by decide, by decide⟩

end Document

end Tidy
