import Tidy.Document
import Tidy.Proofs.Feeds
import Tidy.Proofs.Outcomes

/-!
# Offsets and positions

A position remembers an offset by its line and by the code units in front of it.
Going to the position and back gives the offset again, unless it stands between a
carriage return and its line feed.  Here positions are counted along the lines of a
text, and a surrogate without a pair counts as one code unit; the conversions of a
document find the same ones wherever they answer.
-/

namespace Tidy

/-! ## Code units -/

/-- The code units of a code point; a surrogate without a pair counts as one. -/
def CodePoint.unitCount : CodePoint → Nat
  | .scalar character => Text.unitsOf character
  | .surrogate _ => 1

theorem CodePoint.unitCount_pos
    (character : CodePoint) :
    0 < character.unitCount := by
  cases character with
  | scalar character =>
      rw [unitCount, Text.unitsOf]
      split <;> decide
  | surrogate index =>
      exact Nat.one_pos

namespace Text

open Outcome

def unitCount : Text → Nat
  | [] => 0
  | character :: rest => character.unitCount + unitCount rest

/-- How many leading characters reach a number of code units; a character that is only
half reached counts in full. -/
def reach : Nat → Text → Nat
  | _, [] => 0
  | 0, _ :: _ => 0
  | target + 1, character :: rest => reach (target + 1 - character.unitCount) rest + 1

/-- Counting code units and counting back gives the same characters. -/
theorem reach_unitCount_take
    (count : Nat) (text : Text) :
    reach (unitCount (text.take count)) text = min count text.length := by
  induction text generalizing count with
  | nil =>
      simp [reach]
  | cons character rest inductionHypothesis =>
      cases count with
      | zero =>
          simp [unitCount, reach]
      | succ count =>
          have positive := character.unitCount_pos
          have counted :
              unitCount ((character :: rest).take (count + 1)) =
                (character.unitCount - 1 + unitCount (rest.take count)) + 1 := by
            rw [List.take_succ_cons, unitCount]
            omega
          have remaining :
              character.unitCount - 1 + unitCount (rest.take count) + 1 - character.unitCount =
                unitCount (rest.take count) := by
            omega
          rw [counted, reach, remaining, inductionHypothesis, List.length_cons]
          omega

theorem reach_le_length
    (target : Nat) (text : Text) :
    reach target text ≤ text.length := by
  fun_induction reach target text with
  | case1 =>
      exact Nat.le_refl 0
  | case2 =>
      exact Nat.zero_le _
  | case3 target character rest inductionHypothesis =>
      exact Nat.succ_le_succ inductionHypothesis

def Encodable (text : Text) : Prop :=
  ∀ index, CodePoint.surrogate index ∉ text

@[simp]
theorem encodable_nil :
    Encodable [] :=
  fun _ => List.not_mem_nil

@[simp]
theorem encodable_scalar_cons
    (character : Char) (rest : Text) :
    Encodable (CodePoint.scalar character :: rest) ↔ Encodable rest := by
  simp [Encodable]

@[simp]
theorem not_encodable_surrogate_cons
    (index : Fin 0x800) (rest : Text) :
    ¬ Encodable (CodePoint.surrogate index :: rest) :=
  fun encodable => encodable index List.mem_cons_self

/-- The code units of exactly the encodable texts are counted. -/
theorem unitsFrom_eq_ok_iff
    (position count : Nat) (text : Text) :
    unitsFrom position text = .ok count ↔ Encodable text ∧ unitCount text = count := by
  induction text generalizing position count with
  | nil =>
      simp [unitsFrom, unitCount]
  | cons character rest inductionHypothesis =>
      cases character with
      | surrogate index =>
          simp [unitsFrom]
      | scalar character =>
          rw [unitsFrom, bind_pure_eq_ok_iff, encodable_scalar_cons, unitCount]
          constructor
          · rintro ⟨later, counted, rfl⟩
            obtain ⟨encodable, rfl⟩ := (inductionHypothesis ..).mp counted
            exact ⟨encodable, rfl⟩
          · rintro ⟨encodable, rfl⟩
            exact ⟨unitCount rest, (inductionHypothesis ..).mpr ⟨encodable, rfl⟩, rfl⟩

theorem encodable_ofList
    (characters : List Char) :
    Encodable (ofList characters) := by
  simp [Encodable, ofList]

theorem Encodable.append
    {left right : Text}
    (leftEncodable : Encodable left)
    (rightEncodable : Encodable right) :
    Encodable (left ++ right) := by
  intro index member
  rcases List.mem_append.mp member with inLeft | inRight
  · exact leftEncodable index inLeft
  · exact rightEncodable index inRight

/-- Counting fails only at a surrogate without a pair. -/
theorem unitsFrom_eq_error
    {position : Nat} {text : Text} {fault : Fault}
    (failed : unitsFrom position text = .error fault) :
    ∃ index place, fault = .unencodable index place := by
  induction text generalizing position with
  | nil =>
      cases failed
  | cons character rest inductionHypothesis =>
      cases character with
      | surrogate index =>
          cases failed
          exact ⟨index, position, rfl⟩
      | scalar character =>
          rcases bind_eq_error_iff.mp failed with restFailed | ⟨_, _, impossible⟩
          · exact inductionHypothesis restFailed
          · cases impossible

theorem units_eq_ok_iff
    (text : Text) (count : Nat) :
    units text = .ok count ↔ Encodable text ∧ unitCount text = count :=
  unitsFrom_eq_ok_iff 0 count text

/-- Characters are counted off exactly when all that are counted have code units. -/
theorem charactersFor_eq_ok_iff
    (target count : Nat) (text : Text) :
    charactersFor target text = .ok count ↔
      Encodable (text.take (reach target text)) ∧ reach target text = count := by
  fun_induction reach target text generalizing count with
  | case1 target =>
      simp [charactersFor]
  | case2 =>
      simp [charactersFor]
  | case3 target character rest inductionHypothesis =>
      rw [charactersFor, bind_eq_ok_iff, List.take_succ_cons]
      cases character with
      | surrogate index =>
          simp [units_eq_ok_iff]
      | scalar character =>
          rw [encodable_scalar_cons]
          constructor
          · rintro ⟨reached, isUnits, isCount⟩
            obtain ⟨later, found, rfl⟩ := bind_pure_eq_ok_iff.mp isCount
            cases isUnits
            obtain ⟨encodable, rfl⟩ := (inductionHypothesis ..).mp found
            exact ⟨encodable, rfl⟩
          · rintro ⟨encodable, rfl⟩
            have found := (inductionHypothesis ..).mpr ⟨encodable, rfl⟩
            exact ⟨_, rfl, bind_pure_eq_ok_iff.mpr ⟨_, found, rfl⟩⟩

end Text

/-! ## Breaks of two characters -/

namespace Text

/-- Whether an offset stands between a carriage return and the line feed behind it. -/
def SplitsReturnFeed (text : Text) (offset : Nat) : Prop :=
  ∃ front back,
    text = front ++ CodePoint.scalar '\r' :: CodePoint.scalar '\n' :: back ∧
      offset = front.length + 1

theorem SplitsReturnFeed.append_left
    {text : Text} {offset : Nat}
    (splits : SplitsReturnFeed text offset) (front : Text) :
    SplitsReturnFeed (front ++ text) (front.length + offset) := by
  obtain ⟨before, back, rfl, rfl⟩ := splits
  exact ⟨front ++ before, back, by rw [List.append_assoc], by rw [List.length_append]; omega⟩

theorem SplitsReturnFeed.around
    {text : Text} {offset : Nat}
    (splits : SplitsReturnFeed text offset) :
    (text.take offset).getLast? = some (CodePoint.scalar '\r') ∧
      (text.drop offset).head? = some (CodePoint.scalar '\n') := by
  obtain ⟨front, back, rfl, rfl⟩ := splits
  rw [List.append_cons, List.take_left' (by simp), List.drop_left' (by simp)]
  exact ⟨List.getLast?_concat, rfl⟩

end Text

/-! ## Lines at every break -/

namespace Line

@[simp]
theorem join_ofBreaks
    (text : Text) :
    join (ofBreaks text) = text := by
  fun_induction ofBreaks text with
  | case1 =>
      rfl
  | case2 rest inductionHypothesis =>
      conv => rhs; rw [← inductionHypothesis]
      rfl
  | case3 rest _ inductionHypothesis =>
      conv => rhs; rw [← inductionHypothesis]
      rfl
  | case4 rest inductionHypothesis =>
      conv => rhs; rw [← inductionHypothesis]
      rfl
  | case5 character rest _ _ _ inductionHypothesis =>
      rw [join_consFirst, inductionHypothesis]

theorem endsOnce_ofBreaks
    (text : Text) :
    EndsOnce ((ofBreaks text).map Line.ending) := by
  fun_induction ofBreaks text with
  | case1 =>
      exact ⟨[], rfl, List.not_mem_nil⟩
  | case2 rest inductionHypothesis =>
      exact inductionHypothesis.cons (by simp)
  | case3 rest _ inductionHypothesis =>
      exact inductionHypothesis.cons (by simp)
  | case4 rest inductionHypothesis =>
      exact inductionHypothesis.cons (by simp)
  | case5 character rest _ _ _ inductionHypothesis =>
      exact inductionHypothesis.consFirst character

theorem EndsOnce.ne_nil
    {lines : List Line}
    (endsOnce : EndsOnce (lines.map Line.ending)) :
    lines ≠ [] := by
  rintro rfl
  obtain ⟨front, shape, _⟩ := endsOnce
  simp at shape

theorem EndsOnce.unended
    {line : Line}
    (endsOnce : EndsOnce ([line].map Line.ending)) :
    line.ending = .none := by
  rcases (endsOnce_cons_iff ..).mp endsOnce with ⟨isNone, _⟩ | ⟨_, front, shape, _⟩
  · exact isNone
  · simp at shape

theorem EndsOnce.later
    {line next : Line} {others : List Line}
    (endsOnce : EndsOnce ((line :: next :: others).map Line.ending)) :
    line.ending ≠ .none ∧ EndsOnce ((next :: others).map Line.ending) := by
  rcases (endsOnce_cons_iff ..).mp endsOnce with ⟨_, noOthers⟩ | both
  · cases noOthers
  · exact both

end Line

/-! ## There and back -/

namespace Line

/-- The offset of a position in lines that start at an offset; a line past the
end means the last one, a column past the end of a line means its end. -/
def offsetIn (start : Nat) (position : Position) : List Line → Nat
  | [] => start
  | [line] => start + Text.reach position.character line.text
  | line :: next :: rest =>
      match position.line with
      | 0 => start + Text.reach position.character line.text
      | index + 1 =>
          offsetIn (start + line.width) ⟨index, position.character⟩ (next :: rest)

/-- The position of an offset into lines, the first of them being line
`index`; an offset inside a line's ending means the end of the line. -/
def positionIn (index offset : Nat) : List Line → Position
  | [] => ⟨index, 0⟩
  | [line] => ⟨index, Text.unitCount (line.text.take offset)⟩
  | line :: next :: rest =>
      if offset < line.width then ⟨index, Text.unitCount (line.text.take offset)⟩
      else positionIn (index + 1) (offset - line.width) (next :: rest)

/-- The number of the first line is added to the line of the position. -/
theorem positionIn_eq_add
    (index offset : Nat) (lines : List Line) :
    positionIn index offset lines =
      ⟨(positionIn 0 offset lines).line + index, (positionIn 0 offset lines).character⟩ := by
  induction lines generalizing index offset with
  | nil =>
      simp [positionIn]
  | cons line rest inductionHypothesis =>
      cases rest with
      | nil =>
          simp [positionIn]
      | cons next others =>
          by_cases here : offset < line.width
          · simp [positionIn, here]
          · rw [positionIn, positionIn, if_neg here, if_neg here, inductionHypothesis (index + 1),
              inductionHypothesis (0 + 1)]
            simp only [Position.mk.injEq, and_true]
            omega

/-- An offset in a line, its ending included, that splits no ending lies in the text. -/
theorem le_of_not_splits
    {line : Line} {offset : Nat} {after : Text}
    (inside : offset < line.width)
    (whole : ¬ Text.SplitsReturnFeed (line.text ++ line.ending.text ++ after) offset) :
    offset ≤ line.text.length := by
  rcases Nat.lt_or_ge line.text.length offset with beyond | within
  · unfold Line.width at inside
    cases isEnding : line.ending with
    | returnFeed =>
        rw [isEnding] at whole inside
        have isMiddle : offset = line.text.length + 1 := by
          simp only [Ending.text, List.length_cons, List.length_nil] at inside
          omega
        exact absurd ⟨line.text, after, by simp [Ending.text], isMiddle⟩ whole
    | none | feed | carriageReturn =>
        rw [isEnding] at inside
        simp only [Ending.text, List.length_cons, List.length_nil] at inside
        omega
  · exact within

/-- What an offset behind a line splits stands behind the line. -/
theorem not_splits_behind
    {line : Line} {offset : Nat} {after : Text}
    (behind : line.width ≤ offset)
    (whole : ¬ Text.SplitsReturnFeed (line.text ++ line.ending.text ++ after) offset) :
    ¬ Text.SplitsReturnFeed after (offset - line.width) := by
  intro splits
  apply whole
  have moved := splits.append_left (line.text ++ line.ending.text)
  rw [List.length_append] at moved
  rw [← Nat.add_sub_cancel' behind]
  exact moved

theorem positionIn_behind
    (index offset : Nat) (line : Line) {lines : List Line}
    (followed : lines ≠ []) :
    positionIn index (line.width + offset) (line :: lines) =
      positionIn (index + 1) offset lines := by
  cases lines with
  | nil =>
      exact absurd rfl followed
  | cons next others =>
      rw [positionIn, if_neg (Nat.not_lt.mpr (Nat.le_add_right ..)), Nat.add_sub_cancel_left]

theorem offsetIn_positionIn
    (start : Nat) {offset : Nat} {lines : List Line}
    (endsOnce : Line.EndsOnce (lines.map Line.ending))
    (inside : offset ≤ (Line.join lines).length)
    (whole : ¬ Text.SplitsReturnFeed (Line.join lines) offset) :
    offsetIn start (positionIn 0 offset lines) lines = start + offset := by
  induction lines generalizing start offset with
  | nil =>
      obtain ⟨front, shape, _⟩ := endsOnce
      simp at shape
  | cons line rest inductionHypothesis =>
      rw [Line.join_cons] at inside whole
      cases rest with
      | nil =>
          have within : offset ≤ line.text.length := by
            simpa [endsOnce.unended, Ending.text, Line.join] using inside
          rw [positionIn, offsetIn, Text.reach_unitCount_take, Nat.min_eq_left within]
      | cons next others =>
          by_cases here : offset < line.width
          · have within := le_of_not_splits here whole
            rw [positionIn, if_pos here, offsetIn, Text.reach_unitCount_take,
              Nat.min_eq_left within]
          · have behind : line.width ≤ offset := Nat.not_lt.mp here
            have insideLater : offset - line.width ≤ (Line.join (next :: others)).length := by
              rw [List.length_append, List.length_append] at inside
              unfold Line.width
              omega
            have later :=
              inductionHypothesis (start + line.width) endsOnce.later.2 insideLater
                (not_splits_behind behind whole)
            rw [positionIn, if_neg here, positionIn_eq_add, offsetIn]
            simp only
            rw [later]
            omega

theorem offsetIn_eq_add
    (start : Nat) (position : Position) (lines : List Line) :
    offsetIn start position lines = start + offsetIn 0 position lines := by
  induction lines generalizing start position with
  | nil =>
      rfl
  | cons line rest inductionHypothesis =>
      obtain ⟨index, character⟩ := position
      cases rest with
      | nil =>
          rw [offsetIn, offsetIn, Nat.zero_add]
      | cons next others =>
          cases index with
          | zero =>
              simp only [offsetIn, Nat.zero_add]
          | succ index =>
              simp only [offsetIn]
              rw [inductionHypothesis (start + line.width), inductionHypothesis (0 + line.width)]
              omega

theorem offsetIn_le_length
    (position : Position) (lines : List Line) :
    offsetIn 0 position lines ≤ (Line.join lines).length := by
  induction lines generalizing position with
  | nil =>
      exact Nat.le_refl 0
  | cons line rest inductionHypothesis =>
      obtain ⟨index, character⟩ := position
      have counted := Text.reach_le_length character line.text
      have first : (Line.join (line :: rest)).length =
          line.text.length + line.ending.text.length + (Line.join rest).length := by
        rw [Line.join_cons, List.length_append, List.length_append]
      cases rest with
      | nil =>
          simp only [offsetIn, first]
          omega
      | cons next others =>
          cases index with
          | zero =>
              simp only [offsetIn, first]
              omega
          | succ index =>
              have later := inductionHypothesis ⟨index, character⟩
              simp only [offsetIn]
              rw [offsetIn_eq_add, first, Line.width]
              omega

end Line

namespace Text

def positionFor (text : Text) (offset : Nat) : Position :=
  Line.positionIn 0 offset (Line.ofBreaks text)

def offsetFor (text : Text) (position : Position) : Nat :=
  Line.offsetIn 0 position (Line.ofBreaks text)

/-- An offset into the text that splits no line break is found again. -/
theorem offsetFor_positionFor
    {text : Text} {offset : Nat}
    (inside : offset ≤ text.length)
    (whole : ¬ SplitsReturnFeed text offset) :
    text.offsetFor (text.positionFor offset) = offset := by
  rw [← Line.join_ofBreaks text] at inside whole
  have found := Line.offsetIn_positionIn 0 (Line.endsOnce_ofBreaks text) inside whole
  exact found.trans (Nat.zero_add offset)

theorem offsetFor_le_length
    (text : Text) (position : Position) :
    text.offsetFor position ≤ text.length := by
  have inside := Line.offsetIn_le_length position (Line.ofBreaks text)
  rwa [Line.join_ofBreaks] at inside

end Text

end Tidy
