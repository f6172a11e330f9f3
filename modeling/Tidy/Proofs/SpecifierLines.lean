import Tidy.Proofs.Items
import Tidy.Proofs.Specifiers

/-!
# Specifiers on lines

Lines of specifiers are put in order as lines.  Their specifiers stay what they are when
every line that holds something, but the last one, ends with a comma, and nothing above or
below goes on in the first line or is begun in the last one.  A specifier that goes on over
the end of a line is torn: the commas that are put on make it two.
-/

namespace Tidy

namespace Text

/-- The specifiers that a text lists: what stands between its commas, with its blanks
collapsed, as far as it holds a word. -/
def specifiersOf (text : Text) : List Text :=
  named (items text)

def stack (lines : List Text) (bottom : Text) : Text :=
  lines.foldr (fun line below => line ++ CodePoint.scalar '\n' :: below) bottom

theorem stack_cons
    (line : Text) (lines : List Text) (bottom : Text) :
    stack (line :: lines) bottom = line ++ CodePoint.scalar '\n' :: stack lines bottom :=
  rfl

theorem stack_concat
    (lines : List Text) (last bottom : Text) :
    stack (lines ++ [last]) bottom = stack lines (last ++ CodePoint.scalar '\n' :: bottom) := by
  rw [stack, List.foldr_append]
  rfl

theorem items_newline
    (front rest : Text) :
    items (front ++ CodePoint.scalar '\n' :: rest) = weld (items front) (items rest) :=
  @items_gap ['\n'] (List.forall_mem_singleton.mpr rfl) (List.cons_ne_nil _ _) front rest

theorem items_stack
    (lines : List Text) (bottom : Text) :
    items (stack lines bottom) = (lines.map items).foldr weld (items bottom) := by
  induction lines with
  | nil =>
      rfl
  | cons line rest inductionHypothesis =>
      rw [stack_cons, items_newline, List.map_cons, List.foldr_cons, inductionHypothesis]

end Text

open Text

namespace Specifiers

def filledLines (lines : List Text) : List Text :=
  lines.filter fun line => !line.isEmptyLine

def firstLine (lines : List Text) : Text :=
  (filledLines lines).head?.getD []

def lastLine (lines : List Text) : Text :=
  (filledLines lines).getLast?.getD []

/-- Each line that holds something, but the last one, ends with a comma. -/
def Separated (lines : List Text) : Prop :=
  ∀ line ∈ (filledLines lines).dropLast, endsWith ',' line.stripRight = true

/-- The specifiers of the first and the last line, with what stands beside the braces. -/
def edges (opening : Text) (lines : List Text) (closing : Text) : List Text :=
  specifiersOf (opening ++ CodePoint.scalar '\n' :: firstLine lines) ++
    specifiersOf (lastLine lines ++ CodePoint.scalar '\n' :: closing)

def ends (lines : List Text) : List Text :=
  specifiersOf (firstLine lines) ++ specifiersOf (lastLine lines)

theorem items_of_endsWith
    {line : Text}
    (ends : endsWith ',' line.stripRight = true) :
    items line = items (bare line) ++ [[]] := by
  obtain ⟨front, shape⟩ := (endsWith_iff ',' _).mp ends
  rw [bare_of_comma shape, items_stripRight, ← items_stripRight line, shape, items_append_comma,
    items_nil]

theorem items_of_not_endsWith
    {line : Text}
    (noComma : ¬ endsWith ',' line.stripRight = true) :
    items line = items (bare line) := by
  rw [bare_of_no_comma noComma, items_stripRight]

theorem specifiersOf_bare
    (line : Text) :
    specifiersOf (bare line) = specifiersOf line := by
  unfold specifiersOf
  by_cases ends : endsWith ',' line.stripRight = true
  · rw [items_of_endsWith ends, named_append]
    exact (List.append_nil _).symm
  · rw [items_of_not_endsWith ends]

/-- Whether the last specifier of a line may go on over its end. -/
def leavesOpen (line : Text) : Bool :=
  endsFilled (items line)

theorem leavesOpen_append
    {line : Text}
    (ends : endsWith ',' line.stripRight = true) (front : Text) :
    leavesOpen (front ++ line) = false := by
  obtain ⟨before, shape⟩ := (endsWith_iff ',' _).mp ends
  obtain ⟨blanks, split, allBlank⟩ := exists_stripRight_append line
  rw [leavesOpen, split, shape, ← List.append_cons, ← List.append_assoc, items_append_comma,
    items_of_blank allBlank, endsFilled_concat]
  rfl

theorem leavesOpen_of_endsWith
    {line : Text}
    (ends : endsWith ',' line.stripRight = true) :
    leavesOpen line = false :=
  leavesOpen_append ends []

theorem leavesOpen_of_not_endsWith
    {line : Text}
    (filled : line.isEmptyLine = false)
    (noComma : ¬ endsWith ',' line.stripRight = true) :
    leavesOpen line = true := by
  rw [leavesOpen, endsFilled_items]
  cases isLast : line.stripRight.getLast? with
  | none =>
      obtain ⟨blanks, split, allBlank⟩ := exists_stripRight_append line
      rw [List.getLast?_eq_none_iff.mp isLast, List.nil_append] at split
      rw [split, isEmptyLine, List.all_eq_true.mpr allBlank] at filled
      cases filled
  | some last =>
      rw [Option.any_some]
      rw [endsWith, isLast] at noComma
      simpa using noComma

/-- A comma at the end of a line tells its specifiers from what stands below. -/
theorem specifiersOf_newline
    {line : Text}
    (ends : endsWith ',' line.stripRight = true) (front below : Text) :
    specifiersOf ((front ++ line) ++ CodePoint.scalar '\n' :: below) =
      specifiersOf (front ++ line) ++ specifiersOf below := by
  unfold specifiersOf
  rw [items_newline, named_weld_of_apart (items_ne_nil _) (items_ne_nil _)
    (Or.inl (leavesOpen_append ends front))]

theorem items_of_isEmptyLine
    {line : Text}
    (isEmpty : line.isEmptyLine = true) :
    items line = [[]] :=
  items_of_blank (List.all_eq_true.mp isEmpty)

/-- Lines without a specifier make no difference. -/
theorem items_stack_filledLines
    (lines : List Text) (bottom : Text) :
    items (stack (filledLines lines) bottom) = items (stack lines bottom) := by
  induction lines with
  | nil =>
      rfl
  | cons line rest inductionHypothesis =>
      rw [stack_cons, items_newline, ← inductionHypothesis]
      cases isEmpty : line.isEmptyLine with
      | true =>
          rw [items_of_isEmptyLine isEmpty, empty_weld (items_ne_nil _), filledLines, filledLines,
            List.filter_cons_of_neg (by simp [isEmpty])]
      | false =>
          rw [filledLines, List.filter_cons_of_pos (by simp [isEmpty]), stack_cons, items_newline]
          rfl

theorem flatMap_filledLines
    (lines : List Text) :
    (filledLines lines).flatMap specifiersOf = lines.flatMap specifiersOf := by
  induction lines with
  | nil =>
      rfl
  | cons line rest inductionHypothesis =>
      rw [List.flatMap_cons, ← inductionHypothesis]
      cases isEmpty : line.isEmptyLine with
      | true =>
          rw [specifiersOf, items_of_isEmptyLine isEmpty, filledLines,
            List.filter_cons_of_neg (by simp [isEmpty])]
          rfl
      | false =>
          rw [filledLines, List.filter_cons_of_pos (by simp [isEmpty]), List.flatMap_cons]
          rfl

theorem startsFilled_of_free
    {line : Text}
    (filled : line.isEmptyLine = false)
    (free : hasLeadingComma line = false) :
    startsFilled (items line) = true := by
  rw [startsFilled_items]
  rw [Bool.eq_false_iff, ne_eq, hasLeadingComma_iff] at free
  cases isFirst : line.find? fun character => !isBlank character with
  | none =>
      have allBlank : line.isEmptyLine = true := by
        rw [isEmptyLine, List.all_eq_true]
        simpa using isFirst
      rw [allBlank] at filled
      cases filled
  | some first =>
      rw [isFirst] at free
      simpa using free

theorem startsFilled_of_mem
    {lines : List Text}
    (noObstacle : obstacle? lines = none) :
    ∀ line ∈ filledLines lines, startsFilled (items line) = true := by
  intro line member
  obtain ⟨inLines, filled⟩ := List.mem_filter.mp member
  exact startsFilled_of_free (by simpa using filled)
    ((obstacle?_eq_none_iff lines).mp noObstacle line inLines).2

/-- The comma of a line that holds a specifier does not hold it alone. -/
theorem isEmptyLine_bare
    {line : Text}
    (free : hasLeadingComma line = false) :
    (bare line).isEmptyLine = line.isEmptyLine := by
  cases isEmpty : line.isEmptyLine with
  | true =>
      obtain ⟨extra, split, _⟩ := exists_bare_append line
      rw [split, isEmptyLine, List.all_append, Bool.and_eq_true] at isEmpty
      exact isEmpty.1
  | false =>
      have starts := startsFilled_of_free isEmpty free
      rw [Bool.eq_false_iff]
      intro bareEmpty
      by_cases ends : endsWith ',' line.stripRight = true
      · rw [items_of_endsWith ends, items_of_isEmptyLine bareEmpty] at starts
        cases starts
      · rw [items_of_not_endsWith ends, items_of_isEmptyLine bareEmpty] at starts
        cases starts

theorem filledLines_map_bare
    {lines : List Text}
    (noObstacle : obstacle? lines = none) :
    filledLines (lines.map bare) = (filledLines lines).map bare := by
  rw [filledLines, filledLines, List.filter_map]
  congr 1
  apply List.filter_congr
  intro line member
  rw [Function.comp_apply,
    isEmptyLine_bare ((obstacle?_eq_none_iff lines).mp noObstacle line member).2]

theorem endsWithComma_eq
    {lines : List Text} {last : Text}
    (noObstacle : obstacle? lines = none)
    (isLast : (filledLines lines).getLast? = some last) :
    endsWithComma lines = endsWith ',' last.stripRight := by
  have sameLines :
      (lines.filter fun line => !(bare line).isEmptyLine) = filledLines lines := by
    apply List.filter_congr
    intro line member
    rw [isEmptyLine_bare ((obstacle?_eq_none_iff lines).mp noObstacle line member).2]
  rw [endsWithComma, sameLines, isLast]

/-! ### Commas put on -/

theorem specifiersOf_append_comma
    (line : Text) :
    specifiersOf (line ++ ([','] : Text)) = specifiersOf line := by
  rw [specifiersOf, items_append_comma, items_nil, named_append]
  exact List.append_nil _

theorem flatMap_attachCommas
    (trailing : Bool) (lines : List Text) :
    (attachCommas trailing lines).flatMap specifiersOf = lines.flatMap specifiersOf := by
  induction lines with
  | nil =>
      rfl
  | cons line rest inductionHypothesis =>
      rw [attachCommas_cons, List.flatMap_cons, List.flatMap_cons, inductionHypothesis]
      split
      · rw [specifiersOf_append_comma]
      · rfl

theorem filledLines_attachCommas
    (trailing : Bool) (lines : List Text) :
    filledLines (attachCommas trailing lines) = attachCommas trailing (filledLines lines) := by
  induction lines with
  | nil =>
      rfl
  | cons line rest inductionHypothesis =>
      rw [attachCommas_cons]
      cases isEmpty : line.isEmptyLine with
      | true =>
          rw [filledLines, filledLines, List.filter_cons_of_neg (by simp [isEmpty]),
            List.filter_cons_of_neg (by simp [isEmpty])]
          exact inductionHypothesis
      | false =>
          have sameLater :
              ((filledLines rest).any fun later => !later.isEmptyLine) =
                rest.any fun later => !later.isEmptyLine := by
            simp [filledLines, List.any_filter]
          have withComma : (line ++ ([','] : Text)).isEmptyLine = false := by
            simp [isEmptyLine, isBlank]
          have kept : filledLines (line :: rest) = line :: filledLines rest :=
            List.filter_cons_of_pos (by simp [isEmpty])
          rw [kept, attachCommas_cons, sameLater, isEmpty, ← inductionHypothesis]
          split
          · exact List.filter_cons_of_pos (by simp [withComma])
          · exact List.filter_cons_of_pos (by simp [isEmpty])

theorem endsWith_stripRight_append_comma
    (line : Text) :
    endsWith ',' (stripRight (line ++ ([','] : Text))) = true := by
  rw [stripRight_eq_self_of_endsTight (endsTight_append_comma line)]
  exact endsWith_append_self line ','

theorem attachCommas_true
    {lines : List Text}
    (filled : ∀ line ∈ lines, line.isEmptyLine = false) :
    attachCommas true lines = lines.map (· ++ ([','] : Text)) := by
  induction lines with
  | nil =>
      rfl
  | cons line rest inductionHypothesis =>
      obtain ⟨lineFilled, restFilled⟩ := List.forall_mem_cons.mp filled
      rw [attachCommas_cons, lineFilled, inductionHypothesis restFilled]
      rfl

theorem dropLast_attachCommas
    (trailing : Bool) {lines : List Text}
    (filled : ∀ line ∈ lines, line.isEmptyLine = false) :
    (attachCommas trailing lines).dropLast = lines.dropLast.map (· ++ ([','] : Text)) := by
  induction lines with
  | nil =>
      rfl
  | cons line rest inductionHypothesis =>
      obtain ⟨lineFilled, restFilled⟩ := List.forall_mem_cons.mp filled
      cases rest with
      | nil =>
          rw [attachCommas_cons]
          rfl
      | cons next later =>
          have nextFilled := restFilled next List.mem_cons_self
          have notEmpty : attachCommas trailing (next :: later) ≠ [] := by
            rw [attachCommas_cons]
            exact List.cons_ne_nil _ _
          rw [attachCommas_cons, lineFilled, List.any_cons, nextFilled,
            List.dropLast_cons_of_ne_nil notEmpty, inductionHypothesis restFilled,
            List.dropLast_cons_of_ne_nil (List.cons_ne_nil next later), List.map_cons]
          simp

theorem filled_of_mem
    {lines : List Text} {line : Text}
    (member : line ∈ filledLines lines) :
    line.isEmptyLine = false := by
  simpa using (List.mem_filter.mp member).2

theorem separated_attachCommas
    (trailing : Bool) (lines : List Text) :
    Separated (attachCommas trailing lines) := by
  intro line member
  rw [filledLines_attachCommas, dropLast_attachCommas trailing fun _ => filled_of_mem] at member
  obtain ⟨text, _, rfl⟩ := List.mem_map.mp member
  exact endsWith_stripRight_append_comma text

/-! ### How many specifiers -/

theorem length_specifiersOf_newline
    (front below : Text) :
    (specifiersOf (front ++ CodePoint.scalar '\n' :: below)).length +
        (leavesOpen front && startsFilled (items below)).toNat =
      (specifiersOf front).length + (specifiersOf below).length := by
  unfold specifiersOf leavesOpen
  rw [items_newline]
  exact length_named_weld (items_ne_nil front) (items_ne_nil below)

theorem startsFilled_stack
    {line : Text}
    (starts : startsFilled (items line) = true) (rest : List Text) (bottom : Text) :
    startsFilled (items (stack (line :: rest) bottom)) = true := by
  rw [stack_cons, items_newline]
  exact startsFilled_weld starts _

/-- Each line that leaves a specifier open makes one of two specifiers. -/
theorem length_specifiersOf_stack
    {lines : List Text}
    (starts : ∀ line ∈ lines, startsFilled (items line) = true) (bottom : Text) :
    (specifiersOf (stack lines bottom)).length + lines.dropLast.countP leavesOpen +
        (lines.getLast?.any leavesOpen && startsFilled (items bottom)).toNat =
      (lines.flatMap specifiersOf).length + (specifiersOf bottom).length := by
  induction lines with
  | nil =>
      simp [stack]
  | cons line rest inductionHypothesis =>
      obtain ⟨_, restStarts⟩ := List.forall_mem_cons.mp starts
      have welded := length_specifiersOf_newline line (stack rest bottom)
      rw [stack_cons, List.flatMap_cons, List.length_append]
      cases rest with
      | nil =>
          simpa [stack] using welded
      | cons next others =>
          have later := inductionHypothesis restStarts
          have nextStarts :=
            startsFilled_stack (restStarts next List.mem_cons_self) others bottom
          rw [nextStarts, Bool.and_true] at welded
          rw [List.dropLast_cons_of_ne_nil (List.cons_ne_nil next others), List.countP_cons,
            List.getLast?_cons_cons]
          cases isOpen : leavesOpen line with
          | true =>
              rw [isOpen, Bool.toNat_true] at welded
              rw [if_pos rfl]
              omega
          | false =>
              rw [isOpen, Bool.toNat_false] at welded
              rw [if_neg Bool.false_ne_true]
              omega

/-- Behind the opening brace, an open specifier goes on in the first line. -/
theorem length_specifiersOf_opening
    {lines : List Text}
    (noObstacle : obstacle? lines = none)
    (filled : filledLines lines ≠ []) (opening closing : Text) :
    (specifiersOf (stack (opening :: lines) closing)).length + (leavesOpen opening).toNat +
        (filledLines lines).dropLast.countP leavesOpen +
        ((filledLines lines).getLast?.any leavesOpen && startsFilled (items closing)).toNat =
      (specifiersOf opening).length + (lines.flatMap specifiersOf).length +
        (specifiersOf closing).length := by
  have starts := startsFilled_of_mem noObstacle
  have below := length_specifiersOf_stack starts closing
  have welded := length_specifiersOf_newline opening (stack lines closing)
  obtain ⟨first, others, isLines⟩ := List.exists_cons_of_ne_nil filled
  have firstStarts : startsFilled (items (stack lines closing)) = true := by
    rw [← items_stack_filledLines, isLines]
    exact startsFilled_stack (starts first (by simp [isLines])) others closing
  rw [specifiersOf, items_stack_filledLines, ← specifiersOf, flatMap_filledLines] at below
  rw [firstStarts, Bool.and_true] at welded
  rw [stack_cons]
  omega

/-! ### The first and the last line -/

theorem specifiersOf_stack_of_commas
    {lines : List Text}
    (commas : ∀ line ∈ lines, endsWith ',' line.stripRight = true) (bottom : Text) :
    specifiersOf (stack lines bottom) = lines.flatMap specifiersOf ++ specifiersOf bottom := by
  induction lines with
  | nil =>
      rfl
  | cons line rest inductionHypothesis =>
      obtain ⟨ends, restEnds⟩ := List.forall_mem_cons.mp commas
      have apart := specifiersOf_newline ends [] (stack rest bottom)
      rw [List.nil_append] at apart
      rw [stack_cons, apart, inductionHypothesis restEnds, List.flatMap_cons, List.append_assoc]

/-- Between separated lines only the first and the last one meet anything else. -/
theorem specifiersOf_stack_perm
    {lines : List Text}
    (separated : Separated lines)
    (several : 2 ≤ (filledLines lines).length) (opening closing : Text) :
    (specifiersOf (stack (opening :: lines) closing) ++ ends lines).Perm
      (lines.flatMap specifiersOf ++ edges opening lines closing) := by
  obtain ⟨first, middle, last, isLines⟩ :
      ∃ first middle last, filledLines lines = first :: (middle ++ [last]) := by
    match shape : filledLines lines with
    | [] | [_] =>
        rw [shape] at several
        simp at several
    | first :: next :: others =>
        obtain ⟨middle, last, isRest⟩ :=
          (List.eq_nil_or_concat (next :: others)).resolve_left (List.cons_ne_nil next others)
        exact ⟨first, middle, last, by rw [isRest, List.concat_eq_append]⟩
  have commas : ∀ line ∈ first :: middle, endsWith ',' line.stripRight = true := by
    intro line member
    apply separated
    rw [isLines, ← List.cons_append, List.dropLast_concat]
    exact member
  obtain ⟨firstEnds, middleEnds⟩ := List.forall_mem_cons.mp commas
  have cut :
      specifiersOf (stack (opening :: lines) closing) =
        specifiersOf (opening ++ CodePoint.scalar '\n' :: first) ++
          (middle.flatMap specifiersOf ++
            specifiersOf (last ++ CodePoint.scalar '\n' :: closing)) := by
    have behindFirst := specifiersOf_newline firstEnds (opening ++ (['\n'] : Text))
      (stack middle (last ++ CodePoint.scalar '\n' :: closing))
    rw [specifiersOf_stack_of_commas middleEnds] at behindFirst
    simp only [List.append_assoc, List.singleton_append] at behindFirst
    rw [← behindFirst, specifiersOf, stack_cons, items_newline, ← items_stack_filledLines,
      ← items_newline, isLines, stack_cons, stack_concat]
    rfl
  have whole :
      lines.flatMap specifiersOf =
        specifiersOf first ++ (middle.flatMap specifiersOf ++ specifiersOf last) := by
    rw [← flatMap_filledLines, isLines]
    simp
  have isFirst : firstLine lines = first := by simp [firstLine, isLines]
  have isLast : lastLine lines = last := by
    rw [lastLine, isLines, ← List.cons_append, List.getLast?_concat, Option.getD_some]
  rw [cut, whole, ends, edges, isFirst, isLast, List.perm_iff_count]
  intro specifier
  simp only [List.count_append]
  omega

theorem items_firstLine
    (lines : List Text) :
    items (firstLine lines) = ((filledLines lines).map items).head?.getD [[]] := by
  cases shape : filledLines lines <;> simp [firstLine, shape, items_nil]

theorem items_lastLine
    (lines : List Text) :
    items (lastLine lines) = ((filledLines lines).map items).getLast?.getD [[]] := by
  rw [lastLine, List.getLast?_map]
  cases (filledLines lines).getLast? <;> simp [items_nil]

/-- Only the items of the lines that hold something matter. -/
theorem specifiersOf_congr
    {lines others : List Text}
    (same : (filledLines lines).map items = (filledLines others).map items)
    (opening closing : Text) :
    specifiersOf (stack (opening :: lines) closing) =
        specifiersOf (stack (opening :: others) closing) ∧
      edges opening lines closing = edges opening others closing ∧
      ends lines = ends others := by
  refine ⟨?_, ?_, ?_⟩
  · simp only [specifiersOf, stack_cons, items_newline, ← items_stack_filledLines lines,
      ← items_stack_filledLines others, items_stack, same]
  · simp only [edges, specifiersOf, items_newline, items_firstLine, items_lastLine, same]
  · simp only [ends, specifiersOf, items_firstLine, items_lastLine, same]

/-! ### Lines in order -/

section Ordered

variable {lines : List Text}

theorem obstacle?_sort
    (noObstacle : obstacle? lines = none) :
    obstacle? (sort lines) = none := by
  rw [sort_of_noObstacle noObstacle]
  refine obstacle?_attachCommas noObstacle ?_ _
  intro text member
  exact List.mem_map.mp ((longestFirst_perm _).mem_iff.mp member)

theorem separated_sort
    (noObstacle : obstacle? lines = none) :
    Separated (sort lines) := by
  rw [sort_of_noObstacle noObstacle]
  exact separated_attachCommas _ _

theorem flatMap_sort_perm
    (noObstacle : obstacle? lines = none) :
    ((sort lines).flatMap specifiersOf).Perm (lines.flatMap specifiersOf) := by
  rw [sort_of_noObstacle noObstacle, flatMap_attachCommas]
  refine ((longestFirst_perm _).flatMap_right specifiersOf).trans (List.Perm.of_eq ?_)
  simp only [List.flatMap_map, specifiersOf_bare]

/-- The lines in order are the lines without their commas, in another order, with commas
put on. -/
theorem exists_filledLines_sort
    (noObstacle : obstacle? lines = none) :
    ∃ texts, texts.Perm ((filledLines lines).map bare) ∧
      (∀ text ∈ texts, text.isEmptyLine = false) ∧
      filledLines (sort lines) = attachCommas (endsWithComma lines) texts := by
  refine ⟨filledLines (longestFirst (lines.map bare)), ?_, fun _ => filled_of_mem, ?_⟩
  · rw [← filledLines_map_bare noObstacle]
    exact (longestFirst_perm _).filter _
  · rw [sort_of_noObstacle noObstacle, filledLines_attachCommas]

theorem length_filledLines_sort
    (noObstacle : obstacle? lines = none) :
    (filledLines (sort lines)).length = (filledLines lines).length := by
  obtain ⟨texts, reordered, _, isSorted⟩ := exists_filledLines_sort noObstacle
  rw [isSorted, length_attachCommas, reordered.length_eq, List.length_map]

theorem map_items_sort_of_short
    (noObstacle : obstacle? lines = none)
    (short : (filledLines lines).length ≤ 1) :
    (filledLines (sort lines)).map items = (filledLines lines).map items := by
  obtain ⟨texts, reordered, filled, isSorted⟩ := exists_filledLines_sort noObstacle
  rw [isSorted]
  match shape : filledLines lines with
  | [] =>
      rw [shape] at reordered
      rw [List.perm_nil.mp reordered]
      rfl
  | [line] =>
      rw [shape, List.map_singleton, List.perm_singleton] at reordered
      have isLast : (filledLines lines).getLast? = some line := by rw [shape]; rfl
      rw [endsWithComma_eq noObstacle isLast, List.map_singleton]
      by_cases ends : endsWith ',' line.stripRight = true
      · rw [ends, attachCommas_true filled, reordered, List.map_singleton, List.map_singleton,
          items_append_comma, items_nil, items_of_endsWith ends]
      · rw [Bool.eq_false_iff.mpr ends, reordered, items_of_not_endsWith ends]
        simp [attachCommas]
  | first :: next :: others =>
      rw [shape] at short
      simp at short

/-- When a line ends with a comma behind the last specifier, all lines in order do. -/
theorem endsWith_of_mem_sort
    (noObstacle : obstacle? lines = none)
    (trailing : endsWithComma lines = true) :
    ∀ line ∈ filledLines (sort lines), endsWith ',' line.stripRight = true := by
  obtain ⟨texts, _, filled, isSorted⟩ := exists_filledLines_sort noObstacle
  intro line member
  rw [isSorted, trailing, attachCommas_true filled] at member
  obtain ⟨text, _, rfl⟩ := List.mem_map.mp member
  exact endsWith_stripRight_append_comma text

theorem leavesOpen_of_sort
    (noObstacle : obstacle? lines = none)
    (isOpen : (filledLines (sort lines)).getLast?.any leavesOpen = true) :
    (filledLines lines).getLast?.any leavesOpen = true := by
  have sameLength := length_filledLines_sort noObstacle
  obtain ⟨written, isWritten, writtenOpen⟩ := (Option.any_eq_true _ _).mp isOpen
  have notEmpty : filledLines lines ≠ [] := by
    intro isEmpty
    rw [isEmpty, List.length_nil, List.length_eq_zero_iff] at sameLength
    rw [sameLength] at isWritten
    cases isWritten
  have isLast := List.getLast?_eq_some_getLast notEmpty
  have trailing := endsWithComma_eq noObstacle isLast
  have lastFilled := filled_of_mem (List.mem_of_getLast? isLast)
  rw [isLast, Option.any_some]
  refine leavesOpen_of_not_endsWith lastFilled ?_
  intro ends
  rw [ends] at trailing
  have writtenEnds :=
    endsWith_of_mem_sort noObstacle trailing written (List.mem_of_getLast? isWritten)
  rw [leavesOpen_of_endsWith writtenEnds] at writtenOpen
  cases writtenOpen

theorem countP_leavesOpen_of_separated
    (separated : Separated lines) :
    (filledLines lines).dropLast.countP leavesOpen = 0 := by
  rw [List.countP_eq_zero]
  intro line member
  rw [leavesOpen_of_endsWith (separated line member)]
  exact Bool.false_ne_true

/-- Ordering lines tells apart the specifiers that go on over the end of a line. -/
theorem separated_of_length_eq
    (noObstacle : obstacle? lines = none)
    (filled : filledLines lines ≠ []) {opening closing : Text}
    (sameLength :
      (specifiersOf (stack (opening :: sort lines) closing)).length =
        (specifiersOf (stack (opening :: lines) closing)).length) :
    Separated lines := by
  have sortedFilled : filledLines (sort lines) ≠ [] := by
    have positive := List.length_pos_iff.mpr filled
    rw [← length_filledLines_sort noObstacle] at positive
    exact List.length_pos_iff.mp positive
  -- Each line left open costs one specifier; in order, only the last line can be open.
  have before := length_specifiersOf_opening noObstacle filled opening closing
  have after := length_specifiersOf_opening (obstacle?_sort noObstacle) sortedFilled opening closing
  have sameWhole := (flatMap_sort_perm noObstacle).length_eq
  rw [countP_leavesOpen_of_separated (separated_sort noObstacle)] at after
  have fewer :
      ((filledLines (sort lines)).getLast?.any leavesOpen && startsFilled (items closing)).toNat ≤
        ((filledLines lines).getLast?.any leavesOpen && startsFilled (items closing)).toNat := by
    cases isOpen : (filledLines (sort lines)).getLast?.any leavesOpen with
    | false =>
        exact Nat.zero_le _
    | true =>
        exact Nat.le_of_eq (by rw [leavesOpen_of_sort noObstacle isOpen])
  have noneOpen : (filledLines lines).dropLast.countP leavesOpen = 0 := by
    omega
  intro line member
  have lineFilled := filled_of_mem (List.dropLast_subset _ member)
  by_cases ends : endsWith ',' line.stripRight = true
  · exact ends
  · exact absurd (leavesOpen_of_not_endsWith lineFilled ends)
      (List.countP_eq_zero.mp noneOpen line member)

/-- What two lists have in common does not tell whether they are rearranged. -/
theorem perm_iff_of_whole
    {written writtenEnds writtenWhole writtenEdges : List Text}
    {read readEnds readWhole readEdges : List Text}
    (isWritten : (written ++ writtenEnds).Perm (writtenWhole ++ writtenEdges))
    (isRead : (read ++ readEnds).Perm (readWhole ++ readEdges))
    (sameWhole : writtenWhole.Perm readWhole) :
    written.Perm read ↔ (readEdges ++ writtenEnds).Perm (writtenEdges ++ readEnds) := by
  simp only [List.perm_iff_count, List.count_append] at isWritten isRead sameWhole ⊢
  apply forall_congr'
  intro specifier
  have writtenCount := isWritten specifier
  have readCount := isRead specifier
  have wholeCount := sameWhole specifier
  omega

/-- Ordering lines keeps the specifiers exactly when the lines are separated and the same
specifiers go over the first and the last line. -/
theorem specifiersOf_sort_perm_iff
    (noObstacle : obstacle? lines = none) (opening closing : Text) :
    (specifiersOf (stack (opening :: sort lines) closing)).Perm
        (specifiersOf (stack (opening :: lines) closing)) ↔
      Separated lines ∧
        (edges opening lines closing ++ ends (sort lines)).Perm
          (edges opening (sort lines) closing ++ ends lines) := by
  by_cases several : 2 ≤ (filledLines lines).length
  · have filled : filledLines lines ≠ [] := by
      intro isEmpty
      rw [isEmpty] at several
      simp at several
    have sortedSeveral : 2 ≤ (filledLines (sort lines)).length := by
      rw [length_filledLines_sort noObstacle]
      exact several
    have written :=
      specifiersOf_stack_perm (separated_sort noObstacle) sortedSeveral opening closing
    have sameWhole := flatMap_sort_perm noObstacle
    constructor
    · intro kept
      have separated := separated_of_length_eq noObstacle filled kept.length_eq
      have read := specifiersOf_stack_perm separated several opening closing
      exact ⟨separated, (perm_iff_of_whole written read sameWhole).mp kept⟩
    · intro both
      have read := specifiersOf_stack_perm both.1 several opening closing
      exact (perm_iff_of_whole written read sameWhole).mpr both.2
  · have short : (filledLines lines).length ≤ 1 := by omega
    obtain ⟨sameSpecifiers, sameEdges, sameEnds⟩ :=
      specifiersOf_congr (map_items_sort_of_short noObstacle short) opening closing
    rw [sameSpecifiers, sameEdges, sameEnds]
    refine iff_of_true (List.Perm.refl _) ⟨?_, List.Perm.refl _⟩
    intro line member
    have nothing := List.length_pos_of_mem member
    rw [List.length_dropLast] at nothing
    omega

/-- Nothing beside the braces goes on in the first line or is begun in the last one. -/
structure ClosedOff (opening : Text) (lines : List Text) (closing : Text) : Prop where
  opening_ends : opening.isEmptyLine = true ∨ endsWith ',' opening.stripRight = true
  closing_starts :
    endsWithComma lines = true ∨ closing.isEmptyLine = true ∨ hasLeadingComma closing = true

theorem leavesOpen_of_ends
    {line : Text}
    (ends : line.isEmptyLine = true ∨ endsWith ',' line.stripRight = true) :
    leavesOpen line = false := by
  rcases ends with isEmpty | comma
  · rw [leavesOpen, items_of_isEmptyLine isEmpty]
    rfl
  · exact leavesOpen_of_endsWith comma

theorem startsFilled_of_starts
    {line : Text}
    (starts : line.isEmptyLine = true ∨ hasLeadingComma line = true) :
    startsFilled (items line) = false := by
  rcases starts with isEmpty | comma
  · rw [items_of_isEmptyLine isEmpty]
    rfl
  · rw [startsFilled_items, (hasLeadingComma_iff line).mp comma]
    rfl

theorem leavesOpen_lastLine
    {others : List Text}
    (ends : ∀ last, (filledLines others).getLast? = some last →
      endsWith ',' last.stripRight = true) :
    leavesOpen (lastLine others) = false := by
  rw [lastLine]
  cases isLast : (filledLines others).getLast? with
  | none =>
      rfl
  | some last =>
      exact leavesOpen_of_endsWith (ends last isLast)

theorem edges_of_apart
    {opening closing : Text} {others : List Text}
    (openingApart : leavesOpen opening = false)
    (closingApart : leavesOpen (lastLine others) = false ∨ startsFilled (items closing) = false) :
    edges opening others closing =
      (specifiersOf opening ++ specifiersOf (firstLine others)) ++
        (specifiersOf (lastLine others) ++ specifiersOf closing) := by
  unfold edges specifiersOf
  rw [items_newline, items_newline,
    named_weld_of_apart (items_ne_nil _) (items_ne_nil _) (Or.inl openingApart),
    named_weld_of_apart (items_ne_nil _) (items_ne_nil _) closingApart]

/-- Lines that are closed off meet nothing, whichever is the first and the last. -/
theorem edges_perm_of_closedOff
    (noObstacle : obstacle? lines = none) {opening closing : Text}
    (closedOff : ClosedOff opening lines closing) :
    (edges opening lines closing ++ ends (sort lines)).Perm
      (edges opening (sort lines) closing ++ ends lines) := by
  have openingApart := leavesOpen_of_ends closedOff.opening_ends
  have closingApart :
      (leavesOpen (lastLine lines) = false ∨ startsFilled (items closing) = false) ∧
        (leavesOpen (lastLine (sort lines)) = false ∨ startsFilled (items closing) = false) := by
    rcases closedOff.closing_starts with trailing | starts
    · refine ⟨Or.inl (leavesOpen_lastLine ?_), Or.inl (leavesOpen_lastLine ?_)⟩
      · intro last isLast
        rw [← endsWithComma_eq noObstacle isLast]
        exact trailing
      · intro last isLast
        exact endsWith_of_mem_sort noObstacle trailing last (List.mem_of_getLast? isLast)
    · have apart := startsFilled_of_starts starts
      exact ⟨Or.inr apart, Or.inr apart⟩
  rw [edges_of_apart openingApart closingApart.1, edges_of_apart openingApart closingApart.2,
    List.perm_iff_count]
  intro specifier
  simp only [ends, List.count_append]
  omega

end Ordered

/-- Lines that are kept in order keep their specifiers. -/
theorem specifiersOf_sort_of_obstacle
    {lines : List Text}
    (obstacle : obstacle? lines ≠ none) (opening closing : Text) :
    specifiersOf (stack (opening :: sort lines) closing) =
      specifiersOf (stack (opening :: lines) closing) := by
  obtain ⟨reason, isObstacle⟩ := Option.ne_none_iff_exists'.mp obstacle
  have kept : sort lines = lines.map stripRight := by
    rw [sort, isObstacle]
  have sameItems : (lines.map stripRight).map items = lines.map items := by
    rw [List.map_map]
    exact List.map_congr_left fun line _ => items_stripRight line
  simp only [specifiersOf, stack_cons, items_newline, items_stack, kept, sameItems]

end Specifiers

end Tidy
