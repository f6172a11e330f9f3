import Tidy.Proofs.Positions
import Tidy.Proofs.Weave

/-!
# The table of lines

A line starts at the front of a text, behind every line feed and behind every
carriage return that no line feed follows.  The table of a document lists these
offsets in order, and beside each of them the line that starts there.
-/

namespace Tidy

/-! ## Where lines start -/

namespace Text

def EndsLine (character : CodePoint) (rest : Text) : Prop :=
  character = '\n' ∨ (character = '\r' ∧ rest.head? ≠ some (CodePoint.scalar '\n'))

/-- Whether a line starts at an offset: at the front, or behind a character that ends
one. -/
def StartsLine (text : Text) (offset : Nat) : Prop :=
  offset = 0 ∨
    ∃ front character back, text = front ++ character :: back ∧
      offset = front.length + 1 ∧ EndsLine character back

theorem startsLine_cons_iff
    (character : CodePoint) (rest : Text) (offset : Nat) :
    StartsLine (character :: rest) offset ↔
      offset = 0 ∨ (offset = 1 ∧ EndsLine character rest) ∨
        ∃ later, offset = later + 1 ∧ later ≠ 0 ∧ StartsLine rest later := by
  constructor
  · rintro (isZero | ⟨front, breaking, back, split, isOffset, ends⟩)
    · exact Or.inl isZero
    · cases front with
      | nil =>
          injection split with isBreaking isBack
          subst isBreaking isBack
          exact Or.inr (Or.inl ⟨isOffset, ends⟩)
      | cons first others =>
          injection split with _ isRest
          refine Or.inr (Or.inr ⟨others.length + 1, isOffset, Nat.succ_ne_zero _, ?_⟩)
          exact Or.inr ⟨others, breaking, back, isRest, rfl, ends⟩
  · rintro (isZero | ⟨isOne, ends⟩ | ⟨later, isOffset, notFirst, starts⟩)
    · exact Or.inl isZero
    · exact Or.inr ⟨[], character, rest, rfl, isOne, ends⟩
    · rcases starts with isZero | ⟨front, breaking, back, split, isLater, ends⟩
      · exact absurd isZero notFirst
      · refine Or.inr ⟨character :: front, breaking, back, ?_, ?_, ends⟩
        · rw [split, List.cons_append]
        · rw [isOffset, isLater, List.length_cons]

/-- Behind a character that ends a line, lines start where they start in the rest. -/
theorem startsLine_cons_of_ends
    {character : CodePoint} {rest : Text}
    (ends : EndsLine character rest) (offset : Nat) :
    StartsLine (character :: rest) offset ↔
      offset = 0 ∨ ∃ later, offset = 1 + later ∧ StartsLine rest later := by
  rw [startsLine_cons_iff]
  constructor
  · rintro (isZero | ⟨isOne, _⟩ | ⟨later, isOffset, _, starts⟩)
    · exact Or.inl isZero
    · exact Or.inr ⟨0, isOne, Or.inl rfl⟩
    · exact Or.inr ⟨later, isOffset.trans (Nat.add_comm ..), starts⟩
  · rintro (isZero | ⟨later, isOffset, starts⟩)
    · exact Or.inl isZero
    · by_cases isFirst : later = 0
      · subst later
        exact Or.inr (Or.inl ⟨isOffset, ends⟩)
      · exact Or.inr (Or.inr ⟨later, isOffset.trans (Nat.add_comm ..), isFirst, starts⟩)

/-- A character that ends no line moves all lines of the rest but the first. -/
theorem startsLine_cons_of_stays
    {character : CodePoint} {rest : Text}
    (stays : ¬ EndsLine character rest) (offset : Nat) :
    StartsLine (character :: rest) offset ↔
      offset = 0 ∨ ∃ later, offset = 1 + later ∧ later ≠ 0 ∧ StartsLine rest later := by
  rw [startsLine_cons_iff]
  simp only [stays, and_false, false_or, Nat.add_comm 1]

/-- Whether a line starts at an offset is told by the characters around it. -/
theorem startsLine_iff_getElem?
    (text : Text) (offset : Nat) :
    text.StartsLine offset ↔
      offset = 0 ∨ ∃ before, offset = before + 1 ∧
        (text[before]? = some (CodePoint.scalar '\n') ∨
          text[before]? = some (CodePoint.scalar '\r') ∧
            text[offset]? ≠ some (CodePoint.scalar '\n')) := by
  constructor
  · rintro (isZero | ⟨front, character, back, rfl, rfl, ends⟩)
    · exact Or.inl isZero
    · have atBreak : (front ++ character :: back)[front.length]? = some character := by
        rw [List.getElem?_append_right (Nat.le_refl _), Nat.sub_self]
        rfl
      have behind : (front ++ character :: back)[front.length + 1]? = back.head? := by
        rw [List.getElem?_append_right (by omega), Nat.add_sub_cancel_left,
          List.getElem?_cons_succ, List.head?_eq_getElem?]
      rw [EndsLine, ← behind] at ends
      refine Or.inr ⟨front.length, rfl, ?_⟩
      rcases ends with rfl | ⟨rfl, noFeed⟩
      · exact Or.inl atBreak
      · exact Or.inr ⟨atBreak, noFeed⟩
  · rintro (isZero | ⟨before, rfl, breaks⟩)
    · exact Or.inl isZero
    · have split (character : CodePoint) (found : text[before]? = some character) :
          text = text.take before ++ character :: text.drop (before + 1) := by
        obtain ⟨inside, isCharacter⟩ := List.getElem?_eq_some_iff.mp found
        rw [← isCharacter, ← List.drop_eq_getElem_cons inside, List.take_append_drop]
      have counted (character : CodePoint) (found : text[before]? = some character) :
          (text.take before).length = before :=
        List.length_take_of_le (Nat.le_of_lt (List.getElem?_eq_some_iff.mp found).1)
      rcases breaks with isFeed | ⟨isReturn, noFeed⟩
      · exact Or.inr ⟨_, _, _, split _ isFeed, by rw [counted _ isFeed], Or.inl rfl⟩
      · rw [← List.head?_drop] at noFeed
        exact Or.inr ⟨_, _, _, split _ isReturn, by rw [counted _ isReturn],
          Or.inr ⟨rfl, noFeed⟩⟩

end Text

/-! ## Offsets of lines -/

namespace Line

theorem offsets_eq_map
    (start : Nat) (lines : List Line) :
    offsets start lines = (offsets 0 lines).map (start + ·) := by
  induction lines generalizing start with
  | nil =>
      rfl
  | cons line rest inductionHypothesis =>
      rw [offsets, offsets, List.map_cons, inductionHypothesis (start + line.width),
        inductionHypothesis (0 + line.width), List.map_map]
      simp [Function.comp_def, Nat.add_assoc]

theorem mem_offsets_cons
    (line : Line) (rest : List Line) (offset : Nat) :
    offset ∈ offsets 0 (line :: rest) ↔
      offset = 0 ∨ ∃ later, offset = line.width + later ∧ later ∈ offsets 0 rest := by
  rw [offsets, offsets_eq_map, List.mem_cons, List.mem_map]
  simp only [Nat.zero_add, and_comm, eq_comm]

theorem length_offsets
    (start : Nat) (lines : List Line) :
    (offsets start lines).length = lines.length := by
  induction lines generalizing start with
  | nil =>
      rfl
  | cons line rest inductionHypothesis =>
      rw [offsets, List.length_cons, List.length_cons, inductionHypothesis]

theorem le_of_mem_offsets
    {start offset : Nat} {lines : List Line}
    (member : offset ∈ offsets start lines) :
    start ≤ offset := by
  rw [offsets_eq_map, List.mem_map] at member
  obtain ⟨later, _, rfl⟩ := member
  exact Nat.le_add_right ..

/-- Every line but the last one takes some room. -/
theorem rising_offsets
    {lines : List Line}
    (endsOnce : EndsOnce (lines.map Line.ending)) (start : Nat) :
    (offsets start lines).Pairwise (· < ·) := by
  induction lines generalizing start with
  | nil =>
      exact List.Pairwise.nil
  | cons line rest inductionHypothesis =>
      cases rest with
      | nil =>
          exact List.pairwise_singleton ..
      | cons next others =>
          obtain ⟨ends, laterEndsOnce⟩ := endsOnce.later
          have positive := Ending.length_text_pos ends
          refine List.Pairwise.cons ?_ (inductionHypothesis laterEndsOnce _)
          intro offset member
          have behind := le_of_mem_offsets member
          rw [width] at behind
          omega

/-- A character in front of the first line moves all lines but the first. -/
theorem mem_offsets_consFirst
    (character : CodePoint) {lines : List Line}
    (endsOnce : EndsOnce (lines.map Line.ending)) (offset : Nat) :
    offset ∈ offsets 0 (consFirst character lines) ↔
      offset = 0 ∨ ∃ later, offset = 1 + later ∧ later ≠ 0 ∧ later ∈ offsets 0 lines := by
  cases lines with
  | nil =>
      exact absurd rfl endsOnce.ne_nil
  | cons line rest =>
      have behindFirst : ∀ later ∈ offsets line.width rest, 0 < later := by
        have rising := rising_offsets endsOnce 0
        rw [offsets, Nat.zero_add] at rising
        exact (List.pairwise_cons.mp rising).1
      have wider : width ⟨character :: line.text, line.ending⟩ = 1 + line.width := by
        simp only [width, List.length_cons]
        omega
      have moved : offsets (1 + line.width) rest = (offsets line.width rest).map (1 + ·) := by
        rw [offsets_eq_map, offsets_eq_map line.width, List.map_map]
        simp only [Function.comp_def, Nat.add_assoc]
      rw [consFirst, offsets, offsets, wider, Nat.zero_add, Nat.zero_add, moved, List.mem_cons,
        List.mem_map]
      constructor
      · rintro (isZero | ⟨later, member, isOffset⟩)
        · exact Or.inl isZero
        · have notFirst := Nat.ne_zero_of_lt (behindFirst later member)
          exact Or.inr ⟨later, isOffset.symm, notFirst, List.mem_cons_of_mem 0 member⟩
      · rintro (isZero | ⟨later, isOffset, notFirst, member⟩)
        · exact Or.inl isZero
        · rcases List.mem_cons.mp member with isFirst | inRest
          · exact absurd isFirst notFirst
          · exact Or.inr ⟨later, inRest, isOffset.symm⟩

/-- The offsets of the lines are those at which a line starts. -/
theorem mem_offsets_ofBreaks
    (text : Text) (offset : Nat) :
    offset ∈ offsets 0 (ofBreaks text) ↔ text.StartsLine offset := by
  fun_induction ofBreaks text generalizing offset with
  | case1 =>
      simp [offsets, Text.StartsLine]
  | case2 rest inductionHypothesis =>
      have stays : ¬ Text.EndsLine '\r' (CodePoint.scalar '\n' :: rest) := by
        simp [Text.EndsLine]
      have ends : Text.EndsLine '\n' rest := Or.inl rfl
      rw [mem_offsets_cons, Text.startsLine_cons_of_stays stays]
      simp only [inductionHypothesis, Text.startsLine_cons_of_ends ends]
      constructor
      · rintro (isZero | ⟨later, isOffset, starts⟩)
        · exact Or.inl isZero
        · refine Or.inr ⟨1 + later, ?_, by omega, Or.inr ⟨later, rfl, starts⟩⟩
          rw [isOffset, ← Nat.add_assoc]
          rfl
      · rintro (isZero | ⟨_, isOffset, notFirst, isFirst | ⟨later, rfl, starts⟩⟩)
        · exact Or.inl isZero
        · exact absurd isFirst notFirst
        · refine Or.inr ⟨later, ?_, starts⟩
          rw [isOffset, ← Nat.add_assoc]
          rfl
  | case3 rest notReturnFeed inductionHypothesis =>
      have ends : Text.EndsLine '\r' rest := by
        refine Or.inr ⟨rfl, ?_⟩
        intro isFeed
        obtain ⟨others, isRest⟩ := List.head?_eq_some_iff.mp isFeed
        exact notReturnFeed others isRest
      rw [mem_offsets_cons, Text.startsLine_cons_of_ends ends]
      simp only [inductionHypothesis]
      rfl
  | case4 rest inductionHypothesis =>
      have ends : Text.EndsLine '\n' rest := Or.inl rfl
      rw [mem_offsets_cons, Text.startsLine_cons_of_ends ends]
      simp only [inductionHypothesis]
      rfl
  | case5 character rest _ notReturn notFeed inductionHypothesis =>
      have stays : ¬ Text.EndsLine character rest := by
        rintro (isFeed | ⟨isReturn, _⟩)
        · exact notFeed isFeed
        · exact notReturn isReturn
      rw [Text.startsLine_cons_of_stays stays,
        mem_offsets_consFirst character (endsOnce_ofBreaks rest)]
      simp only [inductionHypothesis]

/-! ## Lines -/

theorem plain_ofBreaks
    (text : Text) :
    ∀ line ∈ ofBreaks text,
      CodePoint.scalar '\r' ∉ line.text ∧ CodePoint.scalar '\n' ∉ line.text := by
  fun_induction ofBreaks text with
  | case1 =>
      simp
  | case2 rest inductionHypothesis =>
      exact List.forall_mem_cons.mpr ⟨by simp, inductionHypothesis⟩
  | case3 rest _ inductionHypothesis =>
      exact List.forall_mem_cons.mpr ⟨by simp, inductionHypothesis⟩
  | case4 rest inductionHypothesis =>
      exact List.forall_mem_cons.mpr ⟨by simp, inductionHypothesis⟩
  | case5 character rest _ notReturn notFeed inductionHypothesis =>
      cases lines : ofBreaks rest with
      | nil =>
          exact absurd lines (endsOnce_ofBreaks rest).ne_nil
      | cons line others =>
          rw [lines, List.forall_mem_cons] at inductionHypothesis
          obtain ⟨⟨noReturn, noFeed⟩, othersPlain⟩ := inductionHypothesis
          refine List.forall_mem_cons.mpr ⟨⟨?_, ?_⟩, othersPlain⟩
          · exact List.not_mem_cons_of_ne_of_not_mem (fun same => notReturn same.symm) noReturn
          · exact List.not_mem_cons_of_ne_of_not_mem (fun same => notFeed same.symm) noFeed

end Line

/-! ## The line of an offset -/

namespace Line

/-- Whether a line is the one that an offset stands in, no further left than its start
and in front of the next one. -/
structure StandsIn (lines : List Line) (offset index : Nat) (line : Line) : Prop where
  found : lines[index]? = some line
  starts : offsetOf lines index ≤ offset
  stops : index + 1 < lines.length → offset < offsetOf lines (index + 1)

theorem offsetOf_cons_succ
    (first : Line) (rest : List Line) (index : Nat) :
    offsetOf (first :: rest) (index + 1) = first.width + offsetOf rest index := by
  rw [offsetOf, List.take_succ_cons, length_join_cons, offsetOf]

/-- An offset stands in the first line or, counted from its end, in one of the others. -/
theorem standsIn_cons_iff
    (first : Line) (rest : List Line) (offset index : Nat) (line : Line) :
    StandsIn (first :: rest) offset index line ↔
      (index = 0 ∧ first = line ∧ (rest ≠ [] → offset < first.width)) ∨
        ∃ later, index = later + 1 ∧ first.width ≤ offset ∧
          StandsIn rest (offset - first.width) later line := by
  cases index with
  | zero =>
      have firstStop : offsetOf (first :: rest) 1 = first.width := offsetOf_cons_succ first rest 0
      have followed : 0 + 1 < (first :: rest).length ↔ rest ≠ [] := by
        cases rest <;> simp
      constructor
      · rintro ⟨found, _, stops⟩
        refine Or.inl ⟨rfl, Option.some.inj found, fun nonempty => ?_⟩
        exact firstStop ▸ stops (followed.mpr nonempty)
      · rintro (⟨_, rfl, stops⟩ | ⟨_, impossible, _⟩)
        · exact ⟨rfl, Nat.zero_le _, fun more => firstStop ▸ stops (followed.mp more)⟩
        · cases impossible
  | succ later =>
      constructor
      · rintro ⟨found, starts, stops⟩
        rw [offsetOf_cons_succ] at starts stops
        rw [List.length_cons] at stops
        exact Or.inr ⟨later, rfl, by omega, found, by omega, by omega⟩
      · rintro (⟨impossible, _⟩ | ⟨_, same, behind, found, starts, stops⟩)
        · cases impossible
        · cases same
          refine ⟨found, ?_, fun more => ?_⟩
          · rw [offsetOf_cons_succ]
            omega
          · have before := stops (Nat.lt_of_succ_lt_succ more)
            rw [offsetOf_cons_succ]
            omega

theorem exists_standsIn
    {lines : List Line}
    (nonempty : lines ≠ []) (offset : Nat) :
    ∃ index line, StandsIn lines offset index line := by
  induction lines generalizing offset with
  | nil =>
      exact absurd rfl nonempty
  | cons first rest inductionHypothesis =>
      by_cases inRest : rest ≠ [] ∧ first.width ≤ offset
      · obtain ⟨index, line, stands⟩ := inductionHypothesis inRest.1 (offset - first.width)
        exact ⟨index + 1, line,
          (standsIn_cons_iff ..).mpr (Or.inr ⟨index, rfl, inRest.2, stands⟩)⟩
      · exact ⟨0, first, (standsIn_cons_iff ..).mpr
          (Or.inl ⟨rfl, rfl, fun others => Nat.not_le.mp fun behind => inRest ⟨others, behind⟩⟩)⟩

theorem positionIn_of_standsIn
    {lines : List Line} {offset index : Nat} {line : Line}
    (stands : StandsIn lines offset index line) (first : Nat) :
    positionIn first offset lines =
      ⟨first + index, Text.unitCount (line.text.take (offset - offsetOf lines index))⟩ := by
  induction lines generalizing first offset index with
  | nil =>
      cases stands.found
  | cons head rest inductionHypothesis =>
      rcases (standsIn_cons_iff ..).mp stands with
        ⟨rfl, rfl, before⟩ | ⟨later, rfl, behind, standsLater⟩
      · cases rest with
        | nil =>
            rfl
        | cons next others =>
            rw [positionIn, if_pos (before (List.cons_ne_nil next others))]
            rfl
      · cases rest with
        | nil =>
            cases standsLater.found
        | cons next others =>
            rw [positionIn, if_neg (Nat.not_lt.mpr behind), inductionHypothesis standsLater,
              offsetOf_cons_succ, Nat.sub_sub, Nat.add_assoc, Nat.add_comm 1]

/-- The lines that start no later than an offset are those up to the one it stands in. -/
theorem length_takeWhile_offsets
    {lines : List Line} {offset index : Nat} {line : Line}
    (stands : StandsIn lines offset index line) (start : Nat) :
    ((offsets start lines).takeWhile fun other => decide (other ≤ start + offset)).length =
      index + 1 := by
  induction lines generalizing start offset index with
  | nil =>
      cases stands.found
  | cons head rest inductionHypothesis =>
      rw [offsets, List.takeWhile_cons_of_pos (by simp), List.length_cons,
        Nat.add_right_cancel_iff]
      rcases (standsIn_cons_iff ..).mp stands with
        ⟨rfl, rfl, before⟩ | ⟨later, rfl, behind, standsLater⟩
      · cases rest with
        | nil =>
            rfl
        | cons next others =>
            have notStarted := before (List.cons_ne_nil next others)
            rw [offsets, List.takeWhile_cons_of_neg (by simpa using notStarted), List.length_nil]
      · have counted := inductionHypothesis standsLater (start + head.width)
        rwa [Nat.add_assoc start, Nat.add_sub_cancel' behind] at counted

theorem EndsOnce.ending_ne_none
    {lines : List Line} {index : Nat} {line : Line}
    (endsOnce : EndsOnce (lines.map Line.ending))
    (found : lines[index]? = some line)
    (followed : index + 1 < lines.length) :
    line.ending ≠ .none := by
  obtain ⟨front, shape, noneMissing⟩ := endsOnce
  have counted : lines.length = front.length + 1 := by
    rw [← List.length_map Line.ending, shape, List.length_append, List.length_singleton]
  have inFront : front[index]? = some line.ending := by
    have inside : index < front.length := by omega
    rw [← List.getElem?_append_left inside, ← shape, List.getElem?_map, found, Option.map_some]
  intro isNone
  exact noneMissing (isNone ▸ List.mem_of_getElem? inFront)

/-- What is no further right than the end of a line's text stands in that line. -/
theorem StandsIn.of_within
    {lines : List Line} {index count : Nat} {line : Line}
    (endsOnce : EndsOnce (lines.map Line.ending))
    (found : lines[index]? = some line)
    (within : count ≤ line.text.length) :
    StandsIn lines (offsetOf lines index + count) index line := by
  refine ⟨found, Nat.le_add_right .., fun followed => ?_⟩
  have positive := Ending.length_text_pos (endsOnce.ending_ne_none found followed)
  rw [offsetOf_succ found, width]
  omega

/-- A position is led to its line, or to the last one, and into that line. -/
theorem offsetIn_of_getElem?
    {lines : List Line} {position : Position} {line : Line}
    (found : lines[min position.line (lines.length - 1)]? = some line) (start : Nat) :
    offsetIn start position lines =
      start + offsetOf lines (min position.line (lines.length - 1)) +
        Text.reach position.character line.text := by
  induction lines generalizing position start with
  | nil =>
      cases found
  | cons first rest inductionHypothesis =>
      obtain ⟨index, character⟩ := position
      cases rest with
      | nil =>
          obtain rfl : first = line := by simpa using found
          rw [List.length_singleton, Nat.min_zero]
          rfl
      | cons next others =>
          cases index with
          | zero =>
              obtain rfl : first = line := by simpa using found
              rw [Nat.zero_min]
              rfl
          | succ index =>
              have clamped :
                  min (index + 1) ((first :: next :: others).length - 1) =
                    min index ((next :: others).length - 1) + 1 := by
                simp only [List.length_cons]
                omega
              simp only [clamped, List.getElem?_cons_succ] at found
              have later := @inductionHypothesis ⟨index, character⟩ found (start + first.width)
              simp only [clamped, offsetIn]
              rw [later, offsetOf_cons_succ, Nat.add_assoc start]

/-- What stands behind the start of a line. -/
theorem drop_of_getElem?
    {lines : List Line} {index : Nat} {line : Line}
    (found : lines[index]? = some line) :
    (join lines).drop (offsetOf lines index) =
      line.text ++ line.ending.text ++ join (lines.drop (index + 1)) := by
  rw [drop_offsetOf, List.drop_eq_getElem?_toList_append, found, Option.toList_some,
    List.singleton_append, join_cons]

end Line

/-! ## Surrogates in front of an offset -/

namespace Text

/-- Whether a surrogate without a pair stands in front of an offset on the same line. -/
def SurrogateBefore (text : Text) (offset : Nat) : Prop :=
  ∃ place index, place < offset ∧ text[place]? = some (CodePoint.surrogate index) ∧
    ∀ start, text.StartsLine start → start ≤ offset → start ≤ place

/-- What stands in front of an offset on its line. -/
theorem take_drop_eq
    {text : Text} {offset index : Nat} {line : Line}
    (stands : Line.StandsIn (Line.ofBreaks text) offset index line)
    (inside : offset ≤ text.length) :
    (text.take offset).drop (Line.offsetOf (Line.ofBreaks text) index) =
      (line.text ++ line.ending.text).take
        (offset - Line.offsetOf (Line.ofBreaks text) index) := by
  have dropped := Line.drop_of_getElem? stands.found
  have next := Line.offsetOf_succ stands.found
  rw [Line.join_ofBreaks] at dropped
  have within : offset - Line.offsetOf (Line.ofBreaks text) index ≤
      (line.text ++ line.ending.text).length := by
    rw [List.length_append, ← Line.width]
    rcases Nat.lt_or_ge (index + 1) (Line.ofBreaks text).length with more | isLast
    · have before := stands.stops more
      omega
    · have isEnd : Line.offsetOf (Line.ofBreaks text) (index + 1) = text.length := by
        rw [Line.offsetOf, List.take_of_length_le isLast, Line.join_ofBreaks]
      omega
  rw [List.drop_take, dropped, List.take_append_of_le_length within]

theorem Encodable.not_surrogateBefore
    {text : Text}
    (encodable : text.Encodable) (offset : Nat) :
    ¬ text.SurrogateBefore offset := by
  rintro ⟨place, index, _, found, _⟩
  exact encodable index (List.mem_of_getElem? found)

/-- No line starts between the start of a line and an offset in it. -/
theorem le_of_startsLine
    {text : Text} {offset index start : Nat} {line : Line}
    (stands : Line.StandsIn (Line.ofBreaks text) offset index line)
    (starts : text.StartsLine start)
    (inFront : start ≤ offset) :
    start ≤ Line.offsetOf (Line.ofBreaks text) index := by
  rw [← Line.mem_offsets_ofBreaks, List.mem_iff_getElem?] at starts
  obtain ⟨other, isStart⟩ := starts
  have inside : other < (Line.ofBreaks text).length := by
    rw [← Line.length_offsets 0]
    exact (List.getElem?_eq_some_iff.mp isStart).1
  rw [Line.offsets_getElem? 0 inside, Nat.zero_add, Option.some.injEq] at isStart
  subst start
  rcases Nat.lt_or_ge index other with later | notLater
  · have before := stands.stops (Nat.lt_of_le_of_lt later inside)
    have order := Line.offsetOf_le_of_le (Line.ofBreaks text) (show index + 1 ≤ other from later)
    omega
  · exact Line.offsetOf_le_of_le _ notLater

theorem startsLine_offsetOf
    {text : Text} {index : Nat} {line : Line}
    (found : (Line.ofBreaks text)[index]? = some line) :
    text.StartsLine (Line.offsetOf (Line.ofBreaks text) index) := by
  have inTable := Line.offsets_getElem? 0 (List.getElem?_eq_some_iff.mp found).1
  rw [Nat.zero_add] at inTable
  exact (Line.mem_offsets_ofBreaks ..).mp (List.mem_of_getElem? inTable)

theorem encodable_ending
    (ending : Ending) :
    Encodable ending.text := by
  cases ending <;> simp [Ending.text]

/-- The part of a line in front of an offset has code units when no surrogate without a
pair stands there. -/
theorem encodable_take_iff
    {text : Text} {offset index : Nat} {line : Line}
    (stands : Line.StandsIn (Line.ofBreaks text) offset index line)
    (inside : offset ≤ text.length) :
    Encodable (line.text.take (offset - Line.offsetOf (Line.ofBreaks text) index)) ↔
      ¬ text.SurrogateBefore offset := by
  set start := Line.offsetOf (Line.ofBreaks text) index with isStart
  have startStarts : text.StartsLine start := startsLine_offsetOf stands.found
  have inTake (surrogate : Fin 0x800) :
      CodePoint.surrogate surrogate ∈ line.text.take (offset - start) ↔
        CodePoint.surrogate surrogate ∈ (text.take offset).drop start := by
    rw [isStart, take_drop_eq stands inside, List.take_append, List.mem_append, or_iff_left]
    exact fun inEnding => encodable_ending line.ending surrogate (List.mem_of_mem_take inEnding)
  have isPlace : text.SurrogateBefore offset ↔
      ∃ surrogate, CodePoint.surrogate surrogate ∈ (text.take offset).drop start := by
    constructor
    · rintro ⟨place, surrogate, before, found, behind⟩
      have notEarlier := behind start startStarts stands.starts
      refine ⟨surrogate, List.mem_of_getElem? (i := place - start) ?_⟩
      rw [List.getElem?_drop, Nat.add_sub_cancel' notEarlier, List.getElem?_take_of_lt before]
      exact found
    · rintro ⟨surrogate, member⟩
      obtain ⟨place, found⟩ := List.mem_iff_getElem?.mp member
      rw [List.getElem?_drop] at found
      have before : start + place < offset :=
        Nat.lt_of_lt_of_le (List.getElem?_eq_some_iff.mp found).1 (List.length_take_le ..)
      rw [List.getElem?_take_of_lt before] at found
      refine ⟨start + place, surrogate, before, found, fun other starts inFront => ?_⟩
      exact Nat.le_trans (le_of_startsLine stands starts inFront) (Nat.le_add_right ..)
  rw [isPlace, not_exists]
  exact forall_congr' fun surrogate => (inTake surrogate).not

end Text

/-! ## The table of a document -/

namespace Document

open Outcome

/-- Whether the table of a document is that of its text. -/
structure Tabled (document : Document) : Prop where
  lines_eq : document.lines = (Line.ofBreaks document.text).map Line.text
  lineOffsets_eq : document.lineOffsets = Line.offsets 0 (Line.ofBreaks document.text)

theorem ofItem_tabled
    (item : DocumentItem) :
    (ofItem item).Tabled :=
  ⟨rfl, rfl⟩

theorem update_tabled
    (document : Document) (text : Text) (version : Int) :
    (document.update text version).Tabled :=
  ofItem_tabled _

theorem entry_of_getElem?
    {Item : Type} {table : List Item} {index : Nat} {item : Item}
    (found : table[index]? = some item) :
    entry table (index : Int) = .ok item := by
  rw [entry, Index.get_of_getElem? found]
  rfl

section Tabled

variable {document : Document} (tabled : document.Tabled)

include tabled

theorem Tabled.entries
    {index : Nat} {line : Line}
    (found : (Line.ofBreaks document.text)[index]? = some line) :
    entry document.lineOffsets index =
        .ok (Line.offsetOf (Line.ofBreaks document.text) index) ∧
      entry document.lines index = .ok line.text := by
  constructor
  · apply entry_of_getElem?
    have inside := (List.getElem?_eq_some_iff.mp found).1
    rw [tabled.lineOffsets_eq, Line.offsets_getElem? 0 inside, Nat.zero_add]
  · apply entry_of_getElem?
    rw [tabled.lines_eq, List.getElem?_map, found, Option.map_some]

theorem Tabled.positionAt_eq
    {offset index : Nat} {line : Line}
    (inside : offset ≤ document.text.length)
    (stands : Line.StandsIn (Line.ofBreaks document.text) offset index line) :
    document.positionAt offset =
      (Text.units
          (line.text.take (offset - Line.offsetOf (Line.ofBreaks document.text) index)) >>=
        fun units => pure ⟨index, units⟩) := by
  obtain ⟨startEntry, lineEntry⟩ := tabled.entries stands.found
  have started := Line.length_takeWhile_offsets stands 0
  simp only [Nat.zero_add, ← tabled.lineOffsets_eq] at started
  have isIndex : ((index + 1 : Nat) : Int) - 1 = index := by omega
  have front : ((document.text.take offset).drop
      (Line.offsetOf (Line.ofBreaks document.text) index)).take line.text.length =
        line.text.take (offset - Line.offsetOf (Line.ofBreaks document.text) index) := by
    rw [Text.take_drop_eq stands inside, List.take_take, Nat.min_comm, ← List.take_take,
      List.take_left]
  simp only [positionAt, Int.toNat_natCast, Nat.min_eq_left inside, started, isIndex]
  rw [startEntry, lineEntry, ← front]
  rfl

/-- The table leads an offset to the position that it has among the lines, if no surrogate
without a pair stands in front of it on its line. -/
theorem Tabled.positionAt_eq_ok_iff
    {offset : Nat} (inside : offset ≤ document.text.length) (position : Position) :
    document.positionAt offset = .ok position ↔
      ¬ document.text.SurrogateBefore offset ∧ document.text.positionFor offset = position := by
  obtain ⟨index, line, stands⟩ :=
    Line.exists_standsIn (Line.endsOnce_ofBreaks document.text).ne_nil offset
  rw [tabled.positionAt_eq inside stands, bind_pure_eq_ok_iff,
    ← Text.encodable_take_iff stands inside, Text.positionFor,
    Line.positionIn_of_standsIn stands, Nat.zero_add]
  simp only [Text.units_eq_ok_iff, and_assoc, exists_and_left, exists_eq_left']

theorem Tabled.offsetAt_eq
    {position : Position} {index : Nat} {line : Line}
    (isIndex : index = min position.line ((Line.ofBreaks document.text).length - 1))
    (found : (Line.ofBreaks document.text)[index]? = some line) :
    document.offsetAt position =
      (Text.charactersFor position.character line.text >>= fun count =>
        pure (Line.offsetOf (Line.ofBreaks document.text) index + count)) := by
  obtain ⟨startEntry, lineEntry⟩ := tabled.entries found
  have inside := (List.getElem?_eq_some_iff.mp found).1
  have clamped : min (position.line : Int) ((document.lines.length : Int) - 1) = index := by
    rw [tabled.lines_eq, List.length_map, isIndex]
    omega
  simp only [offsetAt, clamped]
  rw [startEntry, lineEntry]
  rfl

/-- The table leads a position to the offset that it has among the lines, if no surrogate
without a pair stands in front of that offset on its line. -/
theorem Tabled.offsetAt_eq_ok_iff
    (position : Position) (offset : Nat) :
    document.offsetAt position = .ok offset ↔
      ¬ document.text.SurrogateBefore offset ∧ document.text.offsetFor position = offset := by
  have endsOnce := Line.endsOnce_ofBreaks document.text
  have nonempty : 0 < (Line.ofBreaks document.text).length :=
    List.length_pos_iff.mpr endsOnce.ne_nil
  set index := min position.line ((Line.ofBreaks document.text).length - 1) with isIndex
  obtain ⟨line, found⟩ : ∃ line, (Line.ofBreaks document.text)[index]? = some line :=
    ⟨_, List.getElem?_eq_getElem (by omega)⟩
  have isOffset : document.text.offsetFor position =
      Line.offsetOf (Line.ofBreaks document.text) index +
        Text.reach position.character line.text := by
    rw [Text.offsetFor, Line.offsetIn_of_getElem? found, Nat.zero_add]
  have stands :=
    Line.StandsIn.of_within endsOnce found (Text.reach_le_length position.character line.text)
  rw [← isOffset] at stands
  have clear := Text.encodable_take_iff stands (document.text.offsetFor_le_length position)
  rw [isOffset, Nat.add_sub_cancel_left, ← isOffset] at clear
  rw [tabled.offsetAt_eq isIndex found, bind_pure_eq_ok_iff]
  simp only [Text.charactersFor_eq_ok_iff, and_assoc, exists_and_left, exists_eq_left',
    ← isOffset]
  constructor
  · rintro ⟨encodable, rfl⟩
    exact ⟨clear.mp encodable, rfl⟩
  · rintro ⟨noSurrogate, rfl⟩
    exact ⟨clear.mpr noSurrogate, rfl⟩

end Tabled

/-! ## What a table tells -/

/-- What the lines of a document and their offsets have to do with its text. -/
structure Laid (document : Document) : Prop extends document.Tabled where
  fromZero : document.lineOffsets.head? = some 0
  rising : document.lineOffsets.Pairwise (· < ·)
  /-- The offsets are those at which a line of the text starts. -/
  startsLine : ∀ offset, offset ∈ document.lineOffsets ↔ document.text.StartsLine offset
  counted : document.lineOffsets.length = document.lines.length
  plain : ∀ line ∈ document.lines,
    CodePoint.scalar '\r' ∉ line ∧ CodePoint.scalar '\n' ∉ line
  /-- With their breaks the lines make up the text, each of them at its offset. -/
  joined : ∃ endings : List Ending, endings.length = document.lines.length ∧
    Line.join (List.zipWith Line.mk document.lines endings) = document.text ∧
    ∀ (index : Nat) (line : Text), document.lines[index]? = some line →
      ∃ start ending, document.lineOffsets[index]? = some start ∧
        endings[index]? = some ending ∧ line ++ ending.text <+: document.text.drop start

theorem Tabled.laid
    {document : Document}
    (tabled : document.Tabled) :
    document.Laid where
  toTabled := tabled
  fromZero := by
    rw [tabled.lineOffsets_eq]
    cases shape : Line.ofBreaks document.text with
    | nil =>
        exact absurd shape (Line.endsOnce_ofBreaks document.text).ne_nil
    | cons line rest =>
        rfl
  rising := by
    rw [tabled.lineOffsets_eq]
    exact Line.rising_offsets (Line.endsOnce_ofBreaks document.text) 0
  startsLine := by
    rw [tabled.lineOffsets_eq]
    exact Line.mem_offsets_ofBreaks document.text
  counted := by
    rw [tabled.lineOffsets_eq, tabled.lines_eq, Line.length_offsets, List.length_map]
  plain := by
    rw [tabled.lines_eq, List.forall_mem_map]
    exact Line.plain_ofBreaks document.text
  joined := by
    have zipped : List.zipWith Line.mk ((Line.ofBreaks document.text).map Line.text)
        ((Line.ofBreaks document.text).map Line.ending) = Line.ofBreaks document.text := by
      rw [List.zipWith_map, List.zipWith_self]
      exact List.map_id _
    refine ⟨(Line.ofBreaks document.text).map Line.ending, ?_, ?_, ?_⟩
    · rw [tabled.lines_eq, List.length_map, List.length_map]
    · rw [tabled.lines_eq, zipped, Line.join_ofBreaks]
    · intro index text found
      rw [tabled.lines_eq, List.getElem?_map, Option.map_eq_some_iff] at found
      obtain ⟨line, found, rfl⟩ := found
      have inside := (List.getElem?_eq_some_iff.mp found).1
      have dropped := Line.drop_of_getElem? found
      rw [Line.join_ofBreaks] at dropped
      refine ⟨Line.offsetOf (Line.ofBreaks document.text) index, line.ending, ?_, ?_, ?_⟩
      · rw [tabled.lineOffsets_eq, Line.offsets_getElem? 0 inside, Nat.zero_add]
      · rw [List.getElem?_map, found, Option.map_some]
      · rw [dropped]
        exact List.prefix_append ..

end Document

end Tidy
