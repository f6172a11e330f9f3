import Tidy.Proofs.Feeds
import Tidy.Proofs.Patch
import Tidy.Source

/-!
# Patches of lines as edits

A patch of the lines of a source text becomes an edit between two offsets.  The
edit puts the new lines between the endings that stand there, so that splicing
the edits into the text gives the same as splicing the patches into the lines
and joining these with their own endings.
-/

namespace Tidy

namespace Line

theorem join_append
    (left right : List Line) :
    join (left ++ right) = join left ++ join right :=
  List.flatMap_append

theorem length_join_cons
    (line : Line) (lines : List Line) :
    (join (line :: lines)).length = line.width + (join lines).length := by
  rw [join_cons, List.length_append, List.length_append, width]

def offsetOf (lines : List Line) (index : Nat) : Nat :=
  (join (lines.take index)).length

theorem offsets_getElem?
    {lines : List Line} {index : Nat} (start : Nat)
    (inside : index < lines.length) :
    (offsets start lines)[index]? = some (start + offsetOf lines index) := by
  induction lines generalizing index start with
  | nil =>
      cases inside
  | cons line rest inductionHypothesis =>
      cases index with
      | zero =>
          rfl
      | succ index =>
          have later := inductionHypothesis (start + line.width) (Nat.lt_of_succ_lt_succ inside)
          simp only [offsets, List.getElem?_cons_succ, later, offsetOf, List.take_succ_cons,
            length_join_cons, Nat.add_assoc]

theorem offsetOf_succ
    {lines : List Line} {index : Nat} {line : Line}
    (found : lines[index]? = some line) :
    offsetOf lines (index + 1) = offsetOf lines index + line.width := by
  unfold offsetOf
  rw [List.take_add_one, found, Option.toList_some, join_append, List.length_append,
    length_join_cons]
  rfl

theorem offsetOf_le_of_le
    (lines : List Line) {earlier later : Nat}
    (order : earlier ≤ later) :
    offsetOf lines earlier ≤ offsetOf lines later := by
  unfold offsetOf
  rw [← Patch.take_append_gap lines order, join_append, List.length_append]
  exact Nat.le_add_right ..

theorem offsetOf_le_length
    (lines : List Line) (index : Nat) :
    offsetOf lines index ≤ (join lines).length := by
  conv => rhs; rw [← List.take_append_drop index lines]
  rw [join_append, List.length_append]
  exact Nat.le_add_right ..

theorem take_offsetOf
    (lines : List Line) (index : Nat) :
    (join lines).take (offsetOf lines index) = join (lines.take index) := by
  conv => lhs; rw [← List.take_append_drop index lines]
  rw [join_append]
  exact List.take_left' (by rw [List.take_append_drop]; rfl)

theorem drop_offsetOf
    (lines : List Line) (index : Nat) :
    (join lines).drop (offsetOf lines index) = join (lines.drop index) := by
  conv => lhs; rw [← List.take_append_drop index lines]
  rw [join_append]
  exact List.drop_left' (by rw [List.take_append_drop]; rfl)

/-- The text between the starts of two lines. -/
theorem take_drop_offsetOf
    (lines : List Line) {earlier later : Nat}
    (order : earlier ≤ later) :
    ((join lines).take (offsetOf lines later)).drop (offsetOf lines earlier) =
      join ((lines.take later).drop earlier) := by
  have sameOffset : offsetOf (lines.take later) earlier = offsetOf lines earlier := by
    unfold offsetOf
    rw [List.take_take, Nat.min_eq_left order]
  rw [take_offsetOf, ← sameOffset, drop_offsetOf]

end Line

namespace Index

theorem get_of_getElem?
    {Item : Type} {items : List Item} {index : Nat} {item : Item}
    (found : items[index]? = some item) :
    get items (index : Int) = .ok item := by
  unfold get
  simp [found]

theorem slice_of_nat
    {Item : Type} (items : List Item) (start stop : Nat) :
    slice items (start : Int) (stop : Int) = (items.take stop).drop start := by
  have cutNat (bound : Nat) :
      cut items.length (bound : Int) = min bound items.length := by
    rw [cut, if_neg (by omega), Int.toNat_natCast]
  unfold slice
  rw [cutNat, cutNat, ← List.take_eq_take_min,
    List.drop_eq_drop_min, List.drop_eq_drop_min (i := start), List.length_take]
  congr 1
  omega

end Index

namespace Source

open Patch

/-- The edit that makes a patch of the lines, if the patch changes anything. -/
def editOf? (source : Source) (patch : Patch Text) : Option Edit :=
  (source.replacement patch.start (patch.stop - 1) patch.items).toOption.join

def replaced (source : Source) (patch : Patch Text) : List Text :=
  (source.texts.take patch.stop).drop patch.start

def endingsOf (source : Source) (patch : Patch Text) : List Ending :=
  (source.endings.take patch.stop).drop patch.start

/-- Lines are their texts with their endings. -/
theorem zipWith_text_ending
    (lines : List Line) :
    List.zipWith Line.mk (lines.map Line.text) (lines.map Line.ending) = lines := by
  induction lines with
  | nil =>
      rfl
  | cons line rest inductionHypothesis =>
      rw [List.map_cons, List.map_cons, List.zipWith_cons_cons, inductionHypothesis]

theorem map_text_zipWith
    {texts : List Text} {endings : List Ending}
    (sameLength : texts.length = endings.length) :
    (List.zipWith Line.mk texts endings).map Line.text = texts := by
  rw [← List.map_uncurry_zip_eq_zipWith, List.map_map]
  exact List.map_fst_zip (Nat.le_of_eq sameLength)

theorem map_ending_zipWith
    {texts : List Text} {endings : List Ending}
    (sameLength : texts.length = endings.length) :
    (List.zipWith Line.mk texts endings).map Line.ending = endings := by
  rw [← List.map_uncurry_zip_eq_zipWith, List.map_map]
  exact List.map_snd_zip (Nat.le_of_eq sameLength.symm)

/-! ## One patch -/

/-- Woven lines, followed by the ending that stays behind them, are the new lines
with the endings of the old ones. -/
theorem weave_append_ending
    {source : Source} {before middle after : List Ending} {final : Ending}
    (split : source.endings = before ++ middle ++ final :: after)
    (lines : List Text)
    (sameLength : lines.length = middle.length + 1) :
    source.weave (before.length + middle.length : Nat) before.length lines ++ final.text =
      Line.join (List.zipWith Line.mk lines (middle ++ [final])) := by
  induction middle generalizing before lines with
  | nil =>
      obtain ⟨line, rfl⟩ := List.length_eq_one_iff.mp sameLength
      simp [weave, Line.join]
  | cons ending middle inductionHypothesis =>
      obtain ⟨line, rest, rfl⟩ := List.exists_cons_of_length_eq_add_one sameLength
      have restLength : rest.length = middle.length + 1 := by simpa using sameLength
      obtain ⟨next, others, rfl⟩ := List.exists_cons_of_length_eq_add_one restLength
      have movedSplit :
          source.endings = (before ++ [ending]) ++ middle ++ final :: after := by
        simpa using split
      have found : source.endings[before.length]? = some ending := by
        rw [split]
        simp
      have separated :
          source.separator ((before.length + (ending :: middle).length : Nat) : Int)
            (before.length : Int) = ending.text := by
        rw [separator, if_pos (by rw [List.length_cons]; omega), Index.get_of_getElem? found]
      have later := inductionHypothesis movedSplit (next :: others) restLength
      simp only [List.length_append, List.length_cons, List.length_nil, Nat.zero_add] at later
      have sameLast :
          before.length + 1 + middle.length = before.length + (ending :: middle).length := by
        rw [List.length_cons]
        omega
      rw [sameLast] at later
      rw [weave, separated, List.append_assoc, ← Int.natCast_succ, later]
      · simp [Line.join]
      · simp

theorem editOf?_eq_none
    {source : Source} {patch : Patch Text}
    (unchanged : patch.items = source.replaced patch) :
    source.editOf? patch = none := by
  have sliced :
      Index.slice source.texts patch.start ((patch.stop : Int) - 1 + 1) =
        source.replaced patch := by
    rw [Int.sub_add_cancel, Index.slice_of_nat]
    rfl
  unfold editOf? replacement
  rw [sliced, if_pos (by simp [unchanged])]
  rfl

/-- A patch that stays within the lines and keeps their number. -/
structure Fits (source : Source) (patch : Patch Text) : Prop where
  start_le_stop : patch.start ≤ patch.stop
  stop_le_length : patch.stop ≤ source.lines.length
  sameLength : patch.items.length = patch.stop - patch.start

/-- An edit that makes a patch of the lines: it runs from the start of the first
line to the end of the last one's text, and with the ending behind it holds the
new lines between the old endings. -/
structure Makes (source : Source) (patch : Patch Text) (final : Line) (edit : Edit) :
    Prop where
  nonempty : patch.start < patch.stop
  found : source.lines[patch.stop - 1]? = some final
  fromFront : edit.FromFront
  start_eq : edit.patch.start = Line.offsetOf source.lines patch.start
  stop_eq :
    edit.patch.stop = Line.offsetOf source.lines (patch.stop - 1) + final.text.length
  woven :
    edit.text ++ final.ending.text =
      Line.join (List.zipWith Line.mk patch.items (source.endingsOf patch))

theorem span_of_found
    {source : Source} (first : Nat) {last : Nat} {final : Line}
    (firstInside : first < source.lines.length)
    (found : source.lines[last]? = some final) :
    source.span first last =
      .ok (Line.offsetOf source.lines first,
        Line.offsetOf source.lines last + final.text.length) := by
  have lastInside : last < source.lines.length := (List.getElem?_eq_some_iff.mp found).1
  have firstStart := Line.offsets_getElem? 0 firstInside
  have lastStart := Line.offsets_getElem? 0 lastInside
  have lastText : source.texts[last]? = some final.text := by
    rw [texts, List.getElem?_map, found]
    rfl
  rw [Nat.zero_add] at firstStart lastStart
  unfold span
  rw [offsets, Index.get_of_getElem? firstStart, Index.get_of_getElem? lastStart,
    Index.get_of_getElem? lastText]
  rfl

/-- A patch that changes something has lines to replace. -/
theorem Fits.start_lt_stop
    {source : Source} {patch : Patch Text}
    (fits : source.Fits patch)
    (changed : patch.items ≠ source.replaced patch) :
    patch.start < patch.stop := by
  rcases Nat.lt_or_ge patch.start patch.stop with less | atLeast
  · exact less
  · have noItems : patch.items = [] := by
      apply List.eq_nil_of_length_eq_zero
      rw [fits.sameLength]
      omega
    have noLines : source.replaced patch = [] := by
      apply List.drop_eq_nil_of_le
      rw [List.length_take]
      omega
    exact absurd (noItems.trans noLines.symm) changed

/-- The new lines of a patch are woven between the endings of the old ones. -/
theorem Fits.woven
    {source : Source} {patch : Patch Text}
    (fits : source.Fits patch)
    {last : Nat} {final : Line}
    (stopSucc : patch.stop = last + 1)
    (starts : patch.start ≤ last)
    (found : source.lines[last]? = some final) :
    source.weave last patch.start patch.items ++ final.ending.text =
      Line.join (List.zipWith Line.mk patch.items (source.endingsOf patch)) := by
  have lastInside : last < source.lines.length := (List.getElem?_eq_some_iff.mp found).1
  have endingsLength : source.endings.length = source.lines.length := List.length_map ..
  have lastEnding : source.endings[last]? = some final.ending := by
    rw [endings, List.getElem?_map, found]
    rfl
  -- The endings fall into those before the patch, those inside it, and the one after it.
  have split :
      source.endings =
        source.endings.take patch.start ++ (source.endings.take last).drop patch.start ++
          final.ending :: source.endings.drop (last + 1) := by
    rw [take_append_gap source.endings starts]
    conv => lhs; rw [← List.take_append_drop last source.endings]
    rw [List.drop_eq_getElem?_toList_append, lastEnding]
    rfl
  have beforeLength : (source.endings.take patch.start).length = patch.start := by
    rw [List.length_take]
    omega
  have middleLength :
      ((source.endings.take last).drop patch.start).length = last - patch.start := by
    rw [List.length_drop, List.length_take]
    omega
  have inside :
      source.endingsOf patch =
        (source.endings.take last).drop patch.start ++ [final.ending] := by
    rw [endingsOf, stopSucc, List.take_add_one, lastEnding, List.drop_append_of_le_length]
    · rfl
    · rw [List.length_take]
      omega
  have sameLength := fits.sameLength
  have woven := weave_append_ending split patch.items (by omega)
  rw [beforeLength, middleLength, Nat.add_sub_cancel' starts, ← inside] at woven
  exact woven

theorem exists_editOf?
    {source : Source} {patch : Patch Text}
    (fits : source.Fits patch)
    (changed : patch.items ≠ source.replaced patch) :
    ∃ edit final, source.editOf? patch = some edit ∧ source.Makes patch final edit := by
  have nonempty := fits.start_lt_stop changed
  have stopBound := fits.stop_le_length
  obtain ⟨last, stopSucc⟩ := Nat.exists_eq_succ_of_ne_zero (Nat.ne_zero_of_lt nonempty)
  obtain ⟨final, found⟩ : ∃ final, source.lines[last]? = some final :=
    ⟨_, List.getElem?_eq_getElem (by omega)⟩
  have spanned := span_of_found patch.start (by omega) found
  have sliced :
      Index.slice source.texts patch.start ((last : Int) + 1) = source.replaced patch := by
    rw [← Int.natCast_succ, Index.slice_of_nat, replaced, stopSucc]
  refine ⟨⟨Line.offsetOf source.lines patch.start,
    (Line.offsetOf source.lines last + final.text.length : Nat),
    source.weave last patch.start patch.items⟩, final, ?_, ?_⟩
  · have lastIndex : (patch.stop : Int) - 1 = last := by omega
    unfold editOf? replacement
    rw [lastIndex, sliced, if_neg (by simpa using changed), spanned]
    rfl
  · refine
      { nonempty := nonempty
        found := by rw [stopSucc]; exact found
        fromFront := ⟨Int.natCast_nonneg _, Int.natCast_nonneg _⟩
        start_eq := Int.toNat_natCast _
        stop_eq := ?_
        woven := fits.woven stopSucc (by omega) found }
    rw [stopSucc]
    exact Int.toNat_natCast _

/-- What every edit of a patch does. -/
theorem makes_of_editOf?
    {source : Source} {patch : Patch Text} {edit : Edit}
    (fits : source.Fits patch)
    (isEdit : source.editOf? patch = some edit) :
    ∃ final, source.Makes patch final edit := by
  have changed : patch.items ≠ source.replaced patch := by
    intro unchanged
    rw [editOf?_eq_none unchanged] at isEdit
    cases isEdit
  obtain ⟨made, final, isMade, makes⟩ := exists_editOf? fits changed
  have same : made = edit := Option.some.inj (isMade.symm.trans isEdit)
  exact ⟨final, same ▸ makes⟩

theorem items_eq_replaced
    {source : Source} {patch : Patch Text}
    (fits : source.Fits patch)
    (noEdit : source.editOf? patch = none) :
    patch.items = source.replaced patch := by
  by_cases unchanged : patch.items = source.replaced patch
  · exact unchanged
  · obtain ⟨edit, _, isEdit, _⟩ := exists_editOf? fits unchanged
    rw [noEdit] at isEdit
    cases isEdit

namespace Makes

variable {source : Source} {patch : Patch Text} {final : Line} {edit : Edit}

theorem take_stop
    (makes : source.Makes patch final edit) :
    source.lines.take patch.stop = source.lines.take (patch.stop - 1) ++ [final] := by
  have succ : patch.stop = patch.stop - 1 + 1 := by
    have nonempty := makes.nonempty
    omega
  conv => lhs; rw [succ, List.take_add_one, makes.found]
  rfl

theorem stop_add_ending
    (makes : source.Makes patch final edit) :
    edit.patch.stop + final.ending.text.length = Line.offsetOf source.lines patch.stop := by
  rw [makes.stop_eq, Line.offsetOf, Line.offsetOf, makes.take_stop, Line.join_append,
    List.length_append]
  simp only [Line.join, List.flatMap_cons, List.flatMap_nil, List.append_nil,
    List.length_append]
  omega

theorem start_le_stop
    (makes : source.Makes patch final edit) :
    edit.patch.start ≤ edit.patch.stop := by
  have nonempty := makes.nonempty
  have order := Line.offsetOf_le_of_le source.lines (show patch.start ≤ patch.stop - 1 by omega)
  rw [makes.start_eq, makes.stop_eq]
  omega

/-- Behind the edit stands the ending of its last line. -/
theorem ending_follows
    (makes : source.Makes patch final edit) :
    ((Line.join source.lines).take (Line.offsetOf source.lines patch.stop)).drop
        edit.patch.stop = final.ending.text := by
  have split :
      Line.join (source.lines.take patch.stop) =
        (Line.join (source.lines.take (patch.stop - 1)) ++ final.text) ++ final.ending.text := by
    rw [makes.take_stop, Line.join_append]
    simp [Line.join]
  rw [Line.take_offsetOf, split]
  apply List.drop_left'
  rw [List.length_append, makes.stop_eq]
  rfl

end Makes

/-- Only the last line can do without an ending. -/
theorem ending_length_pos
    {source : Source} {index : Nat} {line : Line}
    (endsOnce : Line.EndsOnce source.endings)
    (found : source.lines[index]? = some line)
    (notLast : index + 1 < source.lines.length) :
    0 < line.ending.text.length := by
  obtain ⟨front, shape, noneMissing⟩ := endsOnce
  have endingFound : source.endings[index]? = some line.ending := by
    rw [endings, List.getElem?_map, found]
    rfl
  have frontLength : front.length + 1 = source.lines.length := by
    have lengths := congrArg List.length shape
    simp only [endings, List.length_map, List.length_append, List.length_singleton] at lengths
    exact lengths.symm
  have inFront : line.ending ∈ front := by
    rw [shape, List.getElem?_append_left (by omega)] at endingFound
    exact List.mem_of_getElem? endingFound
  exact Ending.length_text_pos fun isNone => noneMissing (isNone ▸ inFront)

/-! ## Many patches -/

def editsOf (source : Source) (patches : List (Patch Text)) : List Edit :=
  patches.filterMap source.editOf?

theorem editsOf_cons_none
    {source : Source} {patch : Patch Text} {patches : List (Patch Text)}
    (noEdit : source.editOf? patch = none) :
    source.editsOf (patch :: patches) = source.editsOf patches :=
  List.filterMap_cons_none noEdit

theorem editsOf_cons_some
    {source : Source} {patch : Patch Text} {patches : List (Patch Text)} {edit : Edit}
    (isEdit : source.editOf? patch = some edit) :
    source.editsOf (patch :: patches) = edit :: source.editsOf patches :=
  List.filterMap_cons_some isEdit

/-- Patches of lines that follow one another and keep the number of lines. -/
structure FitAll (source : Source) (position : Nat) (patches : List (Patch Text)) : Prop where
  inOrder : InOrder source.lines.length position patches
  keepLengths : KeepLengths patches

namespace FitAll

variable {source : Source} {position : Nat} {patches : List (Patch Text)}

theorem fits
    (fitAll : source.FitAll position patches)
    {patch : Patch Text} (member : patch ∈ patches) :
    source.Fits patch := by
  obtain ⟨_, start_le_stop, stop_le_length⟩ := fitAll.inOrder.bounds patch member
  exact ⟨start_le_stop, stop_le_length, fitAll.keepLengths patch member⟩

theorem tail
    {patch : Patch Text}
    (fitAll : source.FitAll position (patch :: patches)) :
    source.FitAll patch.stop patches where
  inOrder := fitAll.inOrder.2.2
  keepLengths := fitAll.keepLengths.tail

/-- Every edit comes from one of the patches. -/
theorem exists_makes
    (fitAll : source.FitAll position patches)
    {edit : Edit} (member : edit ∈ source.editsOf patches) :
    ∃ patch ∈ patches, ∃ final, source.Makes patch final edit := by
  obtain ⟨patch, patchMember, isEdit⟩ := List.mem_filterMap.mp member
  obtain ⟨final, makes⟩ := makes_of_editOf? (fitAll.fits patchMember) isEdit
  exact ⟨patch, patchMember, final, makes⟩

theorem edits_fromFront
    (fitAll : source.FitAll position patches) :
    ∀ edit ∈ source.editsOf patches, edit.FromFront := by
  intro edit member
  obtain ⟨_, _, _, makes⟩ := fitAll.exists_makes member
  exact makes.fromFront

/-- The edits follow one another as the patches do. -/
theorem edits_inOrder
    (fitAll : source.FitAll position patches) :
    InOrder (Line.join source.lines).length (Line.offsetOf source.lines position)
      ((source.editsOf patches).map Edit.patch) := by
  induction patches generalizing position with
  | nil =>
      exact Line.offsetOf_le_length source.lines position
  | cons patch rest inductionHypothesis =>
      obtain ⟨starts, start_le_stop, _⟩ := fitAll.inOrder
      have later := inductionHypothesis fitAll.tail
      cases isEdit : source.editOf? patch with
      | none =>
          rw [editsOf_cons_none isEdit]
          exact later.of_le
            (Line.offsetOf_le_of_le source.lines (Nat.le_trans starts start_le_stop))
      | some edit =>
          obtain ⟨final, makes⟩ :=
            makes_of_editOf? (fitAll.fits List.mem_cons_self) isEdit
          rw [editsOf_cons_some isEdit, List.map_cons]
          refine ⟨?_, makes.start_le_stop, later.of_le ?_⟩
          · rw [makes.start_eq]
            exact Line.offsetOf_le_of_le source.lines starts
          · have stopEnding := makes.stop_add_ending
            omega

/-- The lines up to the end of the first patch, and what follows. -/
theorem zipWith_splice_cons
    {patch : Patch Text}
    (fitAll : source.FitAll position (patch :: patches)) :
    List.zipWith Line.mk (splice source.texts position (patch :: patches))
        (source.endings.drop position) =
      (source.lines.take patch.start).drop position ++
        List.zipWith Line.mk patch.items (source.endingsOf patch) ++
        List.zipWith Line.mk (splice source.texts patch.stop patches)
          (source.endings.drop patch.stop) := by
  obtain ⟨starts, start_le_stop, restInOrder⟩ := fitAll.inOrder
  have stop_le_length : patch.stop ≤ source.lines.length := restInOrder.le_limit
  have itemsLength := fitAll.keepLengths patch List.mem_cons_self
  have textsLength : source.texts.length = source.lines.length := List.length_map ..
  have endingsLength : source.endings.length = source.lines.length := List.length_map ..
  have endingsSplit :
      source.endings.drop position =
        (source.endings.take patch.start).drop position ++ source.endingsOf patch ++
          source.endings.drop patch.stop := by
    conv => lhs; rw [← List.take_append_drop patch.stop source.endings,
      ← take_append_gap source.endings start_le_stop]
    rw [List.append_assoc, List.drop_append_of_le_length, ← List.append_assoc]
    · rfl
    · rw [List.length_take]
      omega
  have untouched :
      List.zipWith Line.mk ((source.texts.take patch.start).drop position)
          ((source.endings.take patch.start).drop position) =
        (source.lines.take patch.start).drop position := by
    rw [texts, endings, ← List.map_take, ← List.map_take, ← List.map_drop, ← List.map_drop]
    exact zipWith_text_ending _
  rw [splice, endingsSplit, List.zipWith_append, List.zipWith_append, untouched]
  · simp only [List.length_drop, List.length_take, textsLength, endingsLength]
  · simp only [endingsOf, List.length_append, List.length_drop, List.length_take, textsLength,
      endingsLength, itemsLength]
    omega

/-- Splicing the edits into the text is splicing the patches into the lines. -/
theorem splice_edits
    (fitAll : source.FitAll position patches) :
    splice (Line.join source.lines) (Line.offsetOf source.lines position)
        ((source.editsOf patches).map Edit.patch) =
      Line.join
        (List.zipWith Line.mk (splice source.texts position patches)
          (source.endings.drop position)) := by
  induction patches generalizing position with
  | nil =>
      have stay : List.zipWith Line.mk (source.texts.drop position)
          (source.endings.drop position) = source.lines.drop position := by
        rw [texts, endings, ← List.map_drop, ← List.map_drop]
        exact zipWith_text_ending _
      exact (Line.drop_offsetOf source.lines position).trans (congrArg Line.join stay.symm)
  | cons patch rest inductionHypothesis =>
      obtain ⟨starts, start_le_stop, _⟩ := fitAll.inOrder
      have later := inductionHypothesis fitAll.tail
      have laterInOrder := fitAll.tail.edits_inOrder
      rw [fitAll.zipWith_splice_cons, Line.join_append, Line.join_append, ← later]
      cases isEdit : source.editOf? patch with
      | none =>
          have unchanged := items_eq_replaced (fitAll.fits List.mem_cons_self) isEdit
          have sameLines :
              List.zipWith Line.mk patch.items (source.endingsOf patch) =
                (source.lines.take patch.stop).drop patch.start := by
            rw [unchanged, replaced, endingsOf, texts, endings, ← List.map_take,
              ← List.map_take, ← List.map_drop, ← List.map_drop]
            exact zipWith_text_ending _
          rw [editsOf_cons_none isEdit,
            splice_eq_append
              (Line.offsetOf_le_of_le source.lines (Nat.le_trans starts start_le_stop))
              laterInOrder,
            Line.take_drop_offsetOf source.lines (Nat.le_trans starts start_le_stop),
            sameLines, ← Line.join_append,
            drop_append_gap source.lines starts start_le_stop]
      | some edit =>
          obtain ⟨final, makes⟩ :=
            makes_of_editOf? (fitAll.fits List.mem_cons_self) isEdit
          have stopEnding := makes.stop_add_ending
          rw [editsOf_cons_some isEdit, List.map_cons, splice,
            makes.start_eq, Line.take_drop_offsetOf source.lines starts,
            splice_eq_append (show edit.patch.stop ≤ _ by omega) laterInOrder,
            makes.ending_follows, ← makes.woven]
          simp only [List.append_assoc]
          rfl

/-- Between two edits at least the ending of a line stays. -/
theorem edits_apart
    (fitAll : source.FitAll position patches)
    (endsOnce : Line.EndsOnce source.endings) :
    Apart ((source.editsOf patches).map Edit.patch) := by
  induction patches generalizing position with
  | nil =>
      exact List.Pairwise.nil
  | cons patch rest inductionHypothesis =>
      have later := inductionHypothesis fitAll.tail
      cases isEdit : source.editOf? patch with
      | none =>
          rw [editsOf_cons_none isEdit]
          exact later
      | some edit =>
          obtain ⟨final, makes⟩ :=
            makes_of_editOf? (fitAll.fits List.mem_cons_self) isEdit
          rw [editsOf_cons_some isEdit, List.map_cons]
          refine List.Pairwise.cons ?_ later
          intro otherPatch member
          obtain ⟨other, otherMember, rfl⟩ := List.mem_map.mp member
          obtain ⟨laterPatch, laterMember, _, laterMakes⟩ :=
            fitAll.tail.exists_makes otherMember
          obtain ⟨follows, _, bound⟩ :=
            fitAll.tail.inOrder.bounds laterPatch laterMember
          have nonempty := laterMakes.nonempty
          have ended : 0 < final.ending.text.length :=
            ending_length_pos endsOnce makes.found (by have := makes.nonempty; omega)
          have order := Line.offsetOf_le_of_le source.lines follows
          have stopEnding := makes.stop_add_ending
          rw [laterMakes.start_eq]
          omega

/-- Making the edits of patches splices the patches into the lines. -/
theorem applyAll_edits
    (fitAll : source.FitAll 0 patches)
    (endsOnce : Line.EndsOnce source.endings) :
    Edit.applyAll (source.editsOf patches) (Line.join source.lines) =
      Line.join (List.zipWith Line.mk (splice source.texts 0 patches) source.endings) := by
  have rising :
      (source.editsOf patches).Pairwise fun earlier later => earlier.start < later.start := by
    refine (List.pairwise_map.mp (fitAll.edits_apart endsOnce)).imp_of_mem ?_
    intro earlier later earlierMember laterMember apart
    obtain ⟨_, _, _, makes⟩ := fitAll.exists_makes earlierMember
    have start_le_stop := makes.start_le_stop
    have earlierFront := (fitAll.edits_fromFront earlier earlierMember).1
    have laterFront := (fitAll.edits_fromFront later laterMember).1
    simp only [Edit.patch] at apart start_le_stop
    omega
  rw [Edit.applyAll_eq_splice fitAll.edits_fromFront rising fitAll.edits_inOrder]
  exact fitAll.splice_edits

end FitAll

end Source

end Tidy
