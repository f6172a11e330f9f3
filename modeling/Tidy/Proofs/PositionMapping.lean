import Tidy.Proofs.LineTable

/-!
# Positions are exact

Offsets and positions are in step: a later offset has a later position, a position
that names a column of a line is found again, and only the offset between a carriage
return and its line feed shares its position with the offset in front of it.
-/

namespace Tidy

/-- Whether a position stands before another one: on an earlier line, or further to the
left on the same line. -/
def Position.Before (left right : Position) : Prop :=
  left.line < right.line ∨ (left.line = right.line ∧ left.character < right.character)

/-! ## Columns of a line -/

namespace Text

/-- Whether a column falls inside a character that takes two code units. -/
def SplitsPair (text : Text) (column : Nat) : Prop :=
  ∃ front character back, text = front ++ character :: back ∧
    unitCount front < column ∧ column < unitCount front + character.unitCount

theorem SplitsPair.cons
    {text : Text} {column : Nat}
    (splits : SplitsPair text column) (character : CodePoint) :
    SplitsPair (character :: text) (character.unitCount + column) := by
  obtain ⟨front, pair, back, rfl, starts, stops⟩ := splits
  refine ⟨character :: front, pair, back, rfl, ?_, ?_⟩
  · rw [unitCount]
    omega
  · rw [unitCount]
    omega

/-- Every other column within the text stands behind some of its characters. -/
theorem exists_unitCount_take
    {text : Text} {column : Nat}
    (within : column ≤ unitCount text)
    (whole : ¬ SplitsPair text column) :
    ∃ count, count ≤ text.length ∧ unitCount (text.take count) = column := by
  induction text generalizing column with
  | nil =>
      refine ⟨0, Nat.le_refl 0, ?_⟩
      rw [unitCount] at within
      exact (Nat.le_zero.mp within).symm
  | cons character rest inductionHypothesis =>
      rcases Nat.eq_zero_or_pos column with isZero | positive
      · exact ⟨0, Nat.zero_le _, isZero.symm⟩
      · have reached : character.unitCount ≤ column := by
          rcases Nat.lt_or_ge column (character.unitCount) with inside | reached
          · exact absurd
              ⟨[], character, rest, rfl, positive, by simpa [unitCount] using inside⟩ whole
          · exact reached
        have split : column = character.unitCount + (column - character.unitCount) := by omega
        have withinRest : column - character.unitCount ≤ unitCount rest := by
          rw [unitCount] at within
          omega
        have wholeRest : ¬ SplitsPair rest (column - character.unitCount) := by
          intro splits
          apply whole
          rw [split]
          exact splits.cons character
        obtain ⟨count, inside, counted⟩ := inductionHypothesis withinRest wholeRest
        refine ⟨count + 1, Nat.succ_le_succ inside, ?_⟩
        rw [List.take_succ_cons, unitCount, counted, ← split]

/-- More characters take more code units. -/
theorem unitCount_take_lt
    {text : Text} {earlier later : Nat}
    (order : earlier < later)
    (within : later ≤ text.length) :
    unitCount (text.take earlier) < unitCount (text.take later) := by
  induction text generalizing earlier later with
  | nil =>
      rw [List.length_nil] at within
      omega
  | cons character rest inductionHypothesis =>
      obtain ⟨later, rfl⟩ := Nat.exists_eq_succ_of_ne_zero (Nat.ne_zero_of_lt order)
      have positive := character.unitCount_pos
      cases earlier with
      | zero =>
          rw [List.take_zero, List.take_succ_cons, unitCount, unitCount]
          omega
      | succ earlier =>
          have less :=
            inductionHypothesis (Nat.lt_of_succ_lt_succ order) (Nat.le_of_succ_le_succ within)
          rw [List.take_succ_cons, List.take_succ_cons, unitCount, unitCount]
          omega

end Text

theorem Line.ofBreaks_ne_nil
    (text : Text) :
    ofBreaks text ≠ [] :=
  (endsOnce_ofBreaks text).ne_nil

namespace Line

/-! ## Later offsets -/

theorem le_line_positionIn
    (index offset : Nat) (lines : List Line) :
    index ≤ (positionIn index offset lines).line := by
  rw [positionIn_eq_add]
  exact Nat.le_add_left ..

/-- A later offset has a later position, unless one of the two splits a line break. -/
theorem positionIn_before
    (index : Nat) {earlier later : Nat} {lines : List Line}
    (endsOnce : Line.EndsOnce (lines.map Line.ending))
    (order : earlier < later)
    (inside : later ≤ (Line.join lines).length)
    (earlierWhole : ¬ Text.SplitsReturnFeed (Line.join lines) earlier)
    (laterWhole : ¬ Text.SplitsReturnFeed (Line.join lines) later) :
    (positionIn index earlier lines).Before (positionIn index later lines) := by
  induction lines generalizing index earlier later with
  | nil =>
      rw [Line.join, List.flatMap_nil, List.length_nil] at inside
      omega
  | cons line rest inductionHypothesis =>
      rw [Line.join_cons] at inside earlierWhole laterWhole
      cases rest with
      | nil =>
          have within : later ≤ line.text.length := by
            simpa [endsOnce.unended, Ending.text, Line.join] using inside
          exact Or.inr ⟨rfl, Text.unitCount_take_lt order within⟩
      | cons next others =>
          rw [positionIn, positionIn]
          by_cases laterHere : later < line.width
          · rw [if_pos (Nat.lt_trans order laterHere), if_pos laterHere]
            exact Or.inr ⟨rfl, Text.unitCount_take_lt order (le_of_not_splits laterHere laterWhole)⟩
          · rw [if_neg laterHere]
            by_cases earlierHere : earlier < line.width
            · rw [if_pos earlierHere]
              exact Or.inl (le_line_positionIn (index + 1) ..)
            · rw [if_neg earlierHere]
              have insideLater :
                  later - line.width ≤ (Line.join (next :: others)).length := by
                rw [List.length_append, List.length_append] at inside
                unfold Line.width
                omega
              exact inductionHypothesis (index + 1) endsOnce.later.2 (by omega) insideLater
                (not_splits_behind (Nat.not_lt.mp earlierHere) earlierWhole)
                (not_splits_behind (Nat.not_lt.mp laterHere) laterWhole)

/-! ## Positions of columns -/

/-- A column that stands behind some characters of its line is found again. -/
theorem positionIn_offsetIn
    {position : Position} {lines : List Line} {line : Line} {count : Nat}
    (endsOnce : Line.EndsOnce (lines.map Line.ending))
    (found : lines[position.line]? = some line)
    (within : count ≤ line.text.length)
    (reached : Text.unitCount (line.text.take count) = position.character) :
    positionIn 0 (offsetIn 0 position lines) lines = position := by
  induction lines generalizing position with
  | nil =>
      cases found
  | cons first rest inductionHypothesis =>
      obtain ⟨index, character⟩ := position
      simp only at found reached
      have counted : Text.reach character line.text = count := by
        rw [← reached, Text.reach_unitCount_take, Nat.min_eq_left within]
      cases index with
      | zero =>
          obtain rfl : first = line := Option.some.inj found
          cases rest with
          | nil =>
              simp only [offsetIn, positionIn, counted, Nat.zero_add, reached]
          | cons next others =>
              have ends := Ending.length_text_pos endsOnce.later.1
              have here : count < first.width := by
                unfold Line.width
                omega
              simp only [offsetIn, positionIn, counted, Nat.zero_add, if_pos here, reached]
      | succ index =>
          cases rest with
          | nil =>
              cases found
          | cons next others =>
              have again :
                  positionIn 0 (offsetIn 0 ⟨index, character⟩ (next :: others)) (next :: others) =
                    ⟨index, character⟩ :=
                inductionHypothesis endsOnce.later.2 found reached
              have behind :
                  offsetIn 0 ⟨index + 1, character⟩ (first :: next :: others) =
                    first.width + offsetIn 0 ⟨index, character⟩ (next :: others) := by
                simp only [offsetIn]
                rw [offsetIn_eq_add, Nat.zero_add]
              rw [behind, positionIn_behind _ _ _ (List.cons_ne_nil next others),
                positionIn_eq_add, again]

end Line

namespace Text

/-! ## Offsets inside a line break -/

theorem SplitsReturnFeed.le_length
    {text : Text} {offset : Nat}
    (splits : text.SplitsReturnFeed offset) :
    offset ≤ text.length := by
  obtain ⟨front, back, rfl, rfl⟩ := splits
  rw [List.length_append, List.length_cons]
  omega

theorem SplitsReturnFeed.not_startsLine
    {text : Text} {offset : Nat}
    (splits : text.SplitsReturnFeed offset) :
    ¬ text.StartsLine offset := by
  obtain ⟨front, back, split, rfl⟩ := splits
  rintro (isZero | ⟨before, character, behind, again, isOffset, ends⟩)
  · cases isZero
  · rw [split] at again
    obtain ⟨rfl, rest⟩ := List.append_inj again (Nat.succ.inj isOffset)
    cases rest
    rcases ends with isFeed | ⟨_, noFeed⟩
    · cases isFeed
    · exact noFeed rfl

/-- The offset between a carriage return and its line feed has the position of the
offset in front of it. -/
theorem SplitsReturnFeed.positionFor_eq
    {text : Text} {offset : Nat}
    (splits : text.SplitsReturnFeed offset) :
    text.positionFor offset = text.positionFor (offset - 1) := by
  have notStart := splits.not_startsLine
  obtain ⟨index, line, stands⟩ :=
    Line.exists_standsIn (Line.endsOnce_ofBreaks text).ne_nil offset
  set start := Line.offsetOf (Line.ofBreaks text) index with isStart
  obtain ⟨front, back, split, rfl⟩ := splits
  have earlier : start ≤ front.length := by
    have starts := stands.starts
    rcases Nat.eq_or_lt_of_le starts with same | less
    · exact absurd (same ▸ startsLine_offsetOf stands.found) notStart
    · exact Nat.le_of_lt_succ less
  have standsEarlier : Line.StandsIn (Line.ofBreaks text) front.length index line :=
    ⟨stands.found, earlier, fun more => Nat.lt_of_succ_lt (stands.stops more)⟩
  have atEnd : line.text.length ≤ front.length - start := by
    by_contra inText
    have dropped := Line.drop_of_getElem? stands.found
    have isReturn : (text.drop start)[front.length - start]? = some (CodePoint.scalar '\r') := by
      rw [List.getElem?_drop, Nat.add_sub_cancel' earlier, split,
        List.getElem?_append_right (Nat.le_refl _), Nat.sub_self]
      rfl
    rw [Line.join_ofBreaks] at dropped
    rw [dropped, List.append_assoc, List.getElem?_append_left (Nat.not_le.mp inText)] at isReturn
    have plain := Line.plain_ofBreaks text line (List.mem_of_getElem? stands.found)
    exact plain.1 (List.mem_of_getElem? isReturn)
  rw [Nat.add_sub_cancel, positionFor, positionFor, Line.positionIn_of_standsIn stands,
    Line.positionIn_of_standsIn standsEarlier, ← isStart, List.take_of_length_le atEnd,
    List.take_of_length_le (by omega)]

theorem SplitsReturnFeed.not_before
    {text : Text} {offset : Nat}
    (splits : text.SplitsReturnFeed offset) :
    ¬ text.SplitsReturnFeed (offset - 1) := by
  obtain ⟨front, back, rfl, rfl⟩ := splits
  intro splits
  have isFeed := splits.around.2
  rw [Nat.add_sub_cancel, List.drop_left] at isFeed
  exact absurd (Option.some.inj isFeed) (by decide)

/-- A surrogate in front of a line break stands in front of the offset inside it too. -/
theorem SplitsReturnFeed.surrogateBefore
    {text : Text} {offset : Nat}
    (splits : text.SplitsReturnFeed offset)
    (before : text.SurrogateBefore (offset - 1)) :
    text.SurrogateBefore offset := by
  obtain ⟨place, index, inFront, found, noStart⟩ := before
  refine ⟨place, index, Nat.lt_of_lt_of_le inFront (Nat.sub_le ..), found, ?_⟩
  intro start starts notBehind
  apply noStart start starts
  have notHere : start ≠ offset := by
    rintro rfl
    exact splits.not_startsLine starts
  omega

theorem positionFor_before
    {text : Text} {earlier later : Nat}
    (order : earlier < later)
    (inside : later ≤ text.length)
    (earlierWhole : ¬ text.SplitsReturnFeed earlier)
    (laterWhole : ¬ text.SplitsReturnFeed later) :
    (text.positionFor earlier).Before (text.positionFor later) := by
  rw [← Line.join_ofBreaks text] at inside earlierWhole laterWhole
  exact Line.positionIn_before 0 (Line.endsOnce_ofBreaks text) order inside earlierWhole laterWhole

end Text

/-! ## Offsets and positions of a document -/

namespace Document

open Outcome

section Tabled

variable {document : Document} (tabled : document.Tabled)

include tabled

/-- A position is refused exactly for a surrogate without a pair in front of the offset. -/
theorem positionAt_eq_error_iff
    {offset : Nat} (inside : offset ≤ document.text.length) :
    (∃ index place, document.positionAt offset = .error (.unencodable index place)) ↔
      document.text.SurrogateBefore offset := by
  constructor
  · rintro ⟨index, place, failed⟩
    by_contra clear
    have answers := (tabled.positionAt_eq_ok_iff inside _).mpr ⟨clear, rfl⟩
    rw [failed] at answers
    cases answers
  · intro before
    cases answer : document.positionAt offset with
    | ok position =>
        exact absurd before ((tabled.positionAt_eq_ok_iff inside position).mp answer).1
    | error fault =>
        obtain ⟨_, line, stands⟩ :=
          Line.exists_standsIn (Line.endsOnce_ofBreaks document.text).ne_nil offset
        rw [tabled.positionAt_eq inside stands] at answer
        rcases bind_eq_error_iff.mp answer with failed | ⟨_, _, impossible⟩
        · obtain ⟨index, place, rfl⟩ := Text.unitsFrom_eq_error failed
          exact ⟨index, place, rfl⟩
        · cases impossible

theorem offsetAt_positionAt
    {offset : Nat} {position : Position}
    (inside : offset ≤ document.text.length)
    (whole : ¬ document.text.SplitsReturnFeed offset)
    (found : document.positionAt offset = .ok position) :
    document.offsetAt position = .ok offset := by
  obtain ⟨clear, rfl⟩ := (tabled.positionAt_eq_ok_iff inside position).mp found
  exact (tabled.offsetAt_eq_ok_iff ..).mpr ⟨clear, Text.offsetFor_positionFor inside whole⟩

/-- The offset between a carriage return and its line feed leads back to the end of the
line. -/
theorem offsetAt_positionAt_of_splits
    {offset : Nat} {position : Position}
    (splits : document.text.SplitsReturnFeed offset)
    (found : document.positionAt offset = .ok position) :
    document.offsetAt position = .ok (offset - 1) := by
  have inside := splits.le_length
  obtain ⟨clear, rfl⟩ := (tabled.positionAt_eq_ok_iff inside position).mp found
  have clearBefore : ¬ document.text.SurrogateBefore (offset - 1) :=
    fun before => clear (splits.surrogateBefore before)
  have leads := Text.offsetFor_positionFor (Nat.le_trans (Nat.sub_le offset 1) inside)
    splits.not_before
  rw [splits.positionFor_eq]
  exact (tabled.offsetAt_eq_ok_iff ..).mpr ⟨clearBefore, leads⟩

theorem positionAt_before
    {earlier later : Nat} {left right : Position}
    (order : earlier < later)
    (inside : later ≤ document.text.length)
    (earlierWhole : ¬ document.text.SplitsReturnFeed earlier)
    (laterWhole : ¬ document.text.SplitsReturnFeed later)
    (leftFound : document.positionAt earlier = .ok left)
    (rightFound : document.positionAt later = .ok right) :
    left.Before right := by
  have earlierInside := Nat.le_trans (Nat.le_of_lt order) inside
  obtain ⟨_, rfl⟩ := (tabled.positionAt_eq_ok_iff earlierInside left).mp leftFound
  obtain ⟨_, rfl⟩ := (tabled.positionAt_eq_ok_iff inside right).mp rightFound
  exact Text.positionFor_before order inside earlierWhole laterWhole

/-- A column in a part of its line that has code units is found again. -/
theorem positionAt_offsetAt
    {position : Position} {line front : Text} {units : Nat}
    (found : document.lines[position.line]? = some line)
    (isFront : front <+: line)
    (counted : Text.units front = .ok units)
    (within : position.character ≤ units)
    (whole : ¬ front.SplitsPair position.character) :
    ∃ offset, document.offsetAt position = .ok offset ∧
      document.positionAt offset = .ok position := by
  obtain ⟨encodable, rfl⟩ := (Text.units_eq_ok_iff front units).mp counted
  obtain ⟨count, inFront, reached⟩ := Text.exists_unitCount_take within whole
  rw [tabled.lines_eq, List.getElem?_map, Option.map_eq_some_iff] at found
  obtain ⟨line, lineFound, rfl⟩ := found
  have taken : line.text.take count = front.take count := by
    obtain ⟨rest, split⟩ := isFront
    rw [← split, List.take_append_of_le_length inFront]
  have inLine : count ≤ line.text.length := Nat.le_trans inFront isFront.length_le
  rw [← taken] at reached
  have counted : Text.charactersFor position.character line.text = .ok count := by
    have isReach : Text.reach position.character line.text = count := by
      rw [← reached, Text.reach_unitCount_take, Nat.min_eq_left inLine]
    rw [Text.charactersFor_eq_ok_iff, isReach, taken]
    exact ⟨fun index member => encodable index (List.mem_of_mem_take member), rfl⟩
  have isIndex : position.line =
      min position.line ((Line.ofBreaks document.text).length - 1) := by
    have inTable := (List.getElem?_eq_some_iff.mp lineFound).1
    omega
  have answers := tabled.offsetAt_eq isIndex lineFound
  rw [counted] at answers
  obtain ⟨clear, isOffset⟩ := (tabled.offsetAt_eq_ok_iff ..).mp answers
  refine ⟨_, answers, ?_⟩
  rw [← isOffset] at clear ⊢
  have inside := document.text.offsetFor_le_length position
  refine (tabled.positionAt_eq_ok_iff inside position).mpr ⟨clear, ?_⟩
  exact Line.positionIn_offsetIn (Line.endsOnce_ofBreaks document.text) lineFound inLine reached

end Tabled

/-- Every offset is found again from its position, but for the one between a carriage
return and its line feed, which leads to the end of the line; and there is a position for
it unless a surrogate without a pair stands in front of it on its line.  Positions rise
with the offset, and every column is the position of its offset that splits no pair of
code units and lies in a part of the line that has code units. -/
theorem positions_exact
    {document : Document}
    (tabled : document.Tabled) :
    (∀ offset : Nat, offset ≤ document.text.length →
      ((∃ index place, document.positionAt offset = .error (.unencodable index place)) ↔
          document.text.SurrogateBefore offset) ∧
        (¬ document.text.SurrogateBefore offset →
          ∃ position, document.positionAt offset = .ok position)) ∧
    (∀ (offset : Nat) (position : Position),
      document.positionAt offset = .ok position →
        (offset ≤ document.text.length → ¬ document.text.SplitsReturnFeed offset →
          document.offsetAt position = .ok offset) ∧
        (document.text.SplitsReturnFeed offset →
          document.offsetAt position = .ok (offset - 1))) ∧
    (∀ (earlier later : Nat) (left right : Position),
      earlier < later → later ≤ document.text.length →
      ¬ document.text.SplitsReturnFeed earlier → ¬ document.text.SplitsReturnFeed later →
      document.positionAt earlier = .ok left → document.positionAt later = .ok right →
        left.Before right) ∧
    ∀ (position : Position) (line front : Text) (units : Nat),
      document.lines[position.line]? = some line → front <+: line →
      Text.units front = .ok units → position.character ≤ units →
      ¬ front.SplitsPair position.character →
        ∃ offset, document.offsetAt position = .ok offset ∧
          document.positionAt offset = .ok position := by
  refine ⟨fun offset inside => ⟨?_, fun clear => ?_⟩, fun offset position found => ⟨?_, ?_⟩, ?_, ?_⟩
  · exact positionAt_eq_error_iff tabled inside
  · exact ⟨_, (tabled.positionAt_eq_ok_iff inside _).mpr ⟨clear, rfl⟩⟩
  · intro inside whole
    exact offsetAt_positionAt tabled inside whole found
  · intro splits
    exact offsetAt_positionAt_of_splits tabled splits found
  · intro earlier later left right order inside earlierWhole laterWhole leftFound rightFound
    exact positionAt_before tabled order inside earlierWhole laterWhole leftFound rightFound
  · intro position line front units found isFront counted within whole
    exact positionAt_offsetAt tabled found isFront counted within whole

/-- A document with two kinds of line breaks, a character of two code units and, on its
last line, a surrogate without a pair. -/
def astralBreaks : Document :=
  ofItem
    { uri := "file:///breaks.ts"
      version := 1
      text := ("a\r\n😀b\rc" : Text) ++ CodePoint.ofNat 0xD800 :: ("d" : Text) }

theorem positions_exact_astral :
    astralBreaks.text.SplitsReturnFeed 2 ∧
      (astralBreaks.positionAt 2 >>= astralBreaks.offsetAt) = .ok 1 ∧
      (astralBreaks.positionAt 5 >>= astralBreaks.offsetAt) = .ok 5 ∧
      Position.Before ⟨0, 1⟩ ⟨1, 2⟩ ∧
      ("😀b" : Text).SplitsPair 1 ∧
      (∃ offset, astralBreaks.offsetAt ⟨1, 2⟩ = .ok offset ∧
        astralBreaks.positionAt offset = .ok ⟨1, 2⟩) ∧
      astralBreaks.text.SurrogateBefore 8 := by
  have splits : astralBreaks.text.SplitsReturnFeed 2 :=
    ⟨("a" : Text), ("😀b\rc" : Text) ++ CodePoint.ofNat 0xD800 :: ("d" : Text), rfl, rfl⟩
  have whole (offset : Nat)
      (notReturn : (astralBreaks.text.take offset).getLast? ≠ some (CodePoint.scalar '\r')) :
      ¬ astralBreaks.text.SplitsReturnFeed offset :=
    fun splitsHere => notReturn splitsHere.around.1
  have wholePair : ¬ ("😀b" : Text).SplitsPair 2 := by
    rintro ⟨front, character, back, shape, starts, stops⟩
    match front with
    | [] =>
        cases shape
        exact absurd stops (by decide)
    | [_] =>
        cases shape
        exact absurd starts (by decide)
    | _ :: _ :: _ =>
        simp [Text.ofList] at shape
  obtain ⟨answers, returns, rises, columns⟩ :=
    positions_exact (ofItem_tabled _ : astralBreaks.Tabled)
  have inBreak := (returns 2 ⟨0, 1⟩ (by decide)).2 splits
  have behindPair := (returns 5 ⟨1, 3⟩ (by decide)).1 (by decide) (whole 5 (by decide))
  refine ⟨splits, inBreak, behindPair, ?_, ?_, ?_, ?_⟩
  · exact rises 1 4 ⟨0, 1⟩ ⟨1, 2⟩ (by decide) (by decide) (whole 1 (by decide))
      (whole 4 (by decide)) (by decide) (by decide)
  · exact ⟨[], CodePoint.scalar '😀', ("b" : Text), rfl, by decide, by decide⟩
  · exact columns ⟨1, 2⟩ ("😀b" : Text) ("😀b" : Text) 3 (by decide) (List.prefix_refl _)
      (by decide) (by decide) wholePair
  · exact ((answers 8 (by decide)).1).mp ⟨0, 1, by decide⟩

def unpaired : Document :=
  ofItem { uri := "file:///unpaired.ts", version := 1, text := [CodePoint.ofNat 0xD800] }

/-- The end of the surrogate has no position, and its column has no offset. -/
theorem positions_unpaired :
    1 ≤ unpaired.text.length ∧ ¬ unpaired.text.SplitsReturnFeed 1 ∧
      unpaired.positionAt 1 = .error (.unencodable 0 0) ∧
      unpaired.offsetAt ⟨0, 1⟩ = .error (.unencodable 0 0) ∧
      ¬ ∃ position, unpaired.positionAt 1 = .ok position ∧
        unpaired.offsetAt position = .ok 1 := by
  have failed : unpaired.positionAt 1 = .error (.unencodable 0 0) := by decide
  refine ⟨by decide, ?_, failed, by decide, ?_⟩
  · intro splits
    exact absurd splits.around.1 (by decide)
  · rintro ⟨position, found, _⟩
    rw [failed] at found
    cases found

end Document

end Tidy
