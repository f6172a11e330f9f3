import Tidy.Proofs.Delivery

/-!
# Client and server converge

A client that makes the edits of a formatting request reports them as changes, the last
edit first.  The ranges are those of the text before any edit, and they are looked up in
a text whose end has been rewritten already.  In front of every edit but the first
stands a line feed that no edit touches, so that all positions before it keep their
meaning.
-/

namespace Tidy

open Patch

/-! ## Texts with the same front -/

theorem Text.splitsReturnFeed_iff
    (text : Text) (offset : Nat) :
    SplitsReturnFeed text offset ↔
      (text.take offset).getLast? = some (CodePoint.scalar '\r') ∧
        (text.drop offset).head? = some (CodePoint.scalar '\n') := by
  constructor
  · exact SplitsReturnFeed.around
  · rintro ⟨isReturn, isFeed⟩
    obtain ⟨front, isFront⟩ := List.getLast?_eq_some_iff.mp isReturn
    obtain ⟨back, isBack⟩ := List.head?_eq_some_iff.mp isFeed
    refine ⟨front, back, ?_, ?_⟩
    · rw [← List.take_append_drop offset text, isFront, isBack, List.append_assoc]
      rfl
    · have inside : offset < text.length := by
        have behind := congrArg List.length isBack
        rw [List.length_drop, List.length_cons] at behind
        omega
      have counted := congrArg List.length isFront
      rw [List.length_take, List.length_append, List.length_singleton] at counted
      omega

/-- Whether two texts are the same, at least up to a line feed that an offset stands in
front of. -/
def Text.SameFront (left right : Text) (offset : Nat) : Prop :=
  left = right ∨
    ∃ front leftBack rightBack,
      left = front ++ CodePoint.scalar '\n' :: leftBack ∧
        right = front ++ CodePoint.scalar '\n' :: rightBack ∧
        offset ≤ front.length

namespace Text.SameFront

variable {left right : Text} {offset : Nat}

theorem of_le
    (same : SameFront left right offset)
    {earlier : Nat} (order : earlier ≤ offset) :
    SameFront left right earlier := by
  rcases same with equal | ⟨front, leftBack, rightBack, isLeft, isRight, inside⟩
  · exact Or.inl equal
  · exact Or.inr ⟨front, leftBack, rightBack, isLeft, isRight, Nat.le_trans order inside⟩

theorem le_length
    (same : SameFront left right offset)
    (inside : offset ≤ left.length) :
    offset ≤ right.length := by
  rcases same with rfl | ⟨front, leftBack, rightBack, isLeft, rfl, insideFront⟩
  · exact inside
  · rw [List.length_append]
    omega

theorem splitsReturnFeed
    (same : SameFront left right offset)
    (splits : SplitsReturnFeed right offset) :
    SplitsReturnFeed left offset := by
  rcases same with rfl | ⟨front, leftBack, rightBack, rfl, rfl, inside⟩
  · exact splits
  · rw [splitsReturnFeed_iff] at splits ⊢
    rw [List.take_append_of_le_length inside, List.drop_append_of_le_length inside,
      List.head?_append] at splits ⊢
    exact splits

end Text.SameFront

namespace Line

/-- An offset in the first line, its ending included, has a position there. -/
theorem positionIn_first
    (index : Nat) {offset : Nat} {line : Line} (lines : List Line)
    (here : offset < line.width) :
    positionIn index offset (line :: lines) = ⟨index, Text.unitCount (line.text.take offset)⟩ := by
  cases lines with
  | nil =>
      rfl
  | cons next others =>
      exact if_pos here

theorem positionIn_consFirst_zero
    (index : Nat) (character : CodePoint) (lines : List Line) :
    positionIn index 0 (Line.consFirst character lines) = ⟨index, 0⟩ := by
  cases lines with
  | nil =>
      rfl
  | cons line rest =>
      apply positionIn_first
      simp only [Line.width, List.length_cons]
      omega

/-- A character in front of the first line moves the columns of that line. -/
theorem positionIn_consFirst
    (index offset : Nat) (character : CodePoint) (lines : List Line) :
    positionIn index (offset + 1) (Line.consFirst character lines) =
      if (positionIn index offset lines).line = index then
        ⟨index, character.unitCount + (positionIn index offset lines).character⟩
      else positionIn index offset lines := by
  cases lines with
  | nil =>
      simp [Line.consFirst, positionIn, Text.unitCount]
  | cons line rest =>
      cases rest with
      | nil =>
          simp [Line.consFirst, positionIn, Text.unitCount]
      | cons next others =>
          have width :
              (⟨character :: line.text, line.ending⟩ : Line).width = line.width + 1 := by
            simp only [Line.width, List.length_cons]
            omega
          by_cases here : offset < line.width
          · have position :
                positionIn index offset (line :: next :: others) =
                  ⟨index, Text.unitCount (line.text.take offset)⟩ := if_pos here
            rw [position, if_pos rfl, Line.consFirst, positionIn, width,
              if_pos (Nat.succ_lt_succ here), List.take_succ_cons, Text.unitCount]
          · have position :
                positionIn index offset (line :: next :: others) =
                  positionIn (index + 1) (offset - line.width) (next :: others) := if_neg here
            have further := le_line_positionIn (index + 1) (offset - line.width) (next :: others)
            rw [position, if_neg (by omega), Line.consFirst, positionIn, width, if_neg (by omega),
              Nat.add_sub_add_right]

/-- Lines with the same positions have the same ones behind a further line break. -/
theorem positionIn_break
    {index limit : Nat} {ending : Ending} {left right : Text}
    (same :
      ∀ offset ≤ limit,
        positionIn (index + 1) offset (Line.ofBreaks left) =
          positionIn (index + 1) offset (Line.ofBreaks right)) :
    ∀ offset ≤ ending.text.length + limit,
      positionIn index offset (⟨[], ending⟩ :: Line.ofBreaks left) =
        positionIn index offset (⟨[], ending⟩ :: Line.ofBreaks right) := by
  intro offset inside
  have width : (⟨[], ending⟩ : Line).width = ending.text.length := Nat.zero_add _
  by_cases here : offset < (⟨[], ending⟩ : Line).width
  · rw [positionIn_first index _ here, positionIn_first index _ here]
  · obtain ⟨behind, rfl⟩ := Nat.exists_eq_add_of_le (Nat.not_lt.mp here)
    rw [positionIn_behind _ _ _ (Line.ofBreaks_ne_nil left),
      positionIn_behind _ _ _ (Line.ofBreaks_ne_nil right)]
    exact same behind (by omega)

/-- Positions in front of a line feed do not hang on what stands behind it. -/
theorem positionIn_front
    (index : Nat) (front left right : Text) :
    ∀ offset ≤ front.length,
      positionIn index offset (Line.ofBreaks (front ++ CodePoint.scalar '\n' :: left)) =
        positionIn index offset (Line.ofBreaks (front ++ CodePoint.scalar '\n' :: right)) := by
  fun_induction Line.ofBreaks front generalizing index with
  | case1 =>
      intro offset inside
      have here : offset < (⟨[], .feed⟩ : Line).width := Nat.lt_succ_of_le inside
      exact (positionIn_first index _ here).trans (positionIn_first index _ here).symm
  | case2 rest inductionHypothesis =>
      intro offset inside
      apply positionIn_break (inductionHypothesis (index + 1)) offset
      simp only [List.length_cons, Ending.text, List.length_nil] at inside ⊢
      omega
  | case3 rest notFeed inductionHypothesis =>
      intro offset inside
      cases rest with
      | nil =>
          have here : offset < (⟨[], .returnFeed⟩ : Line).width := Nat.lt_succ_of_le inside
          exact (positionIn_first index _ here).trans (positionIn_first index _ here).symm
      | cons next others =>
          have alone (back : Text) :
              Line.ofBreaks (CodePoint.scalar '\r' :: next :: others ++ back) =
                ⟨[], .carriageReturn⟩ :: Line.ofBreaks (next :: others ++ back) := by
            rw [List.cons_append, Line.ofBreaks]
            intro more isFeed
            rw [List.cons_append, List.cons.injEq] at isFeed
            exact notFeed others (by rw [isFeed.1])
          rw [alone, alone]
          apply positionIn_break (inductionHypothesis (index + 1)) offset
          simpa [Ending.text, Nat.add_comm] using inside
  | case4 rest inductionHypothesis =>
      intro offset inside
      apply positionIn_break (inductionHypothesis (index + 1)) offset
      simpa [Ending.text, Nat.add_comm] using inside
  | case5 character rest notReturnFeed notReturn notFeed inductionHypothesis =>
      intro offset inside
      have longer (back : Text) :
          Line.ofBreaks (character :: rest ++ back) =
            Line.consFirst character (Line.ofBreaks (rest ++ back)) := by
        rw [List.cons_append, Line.ofBreaks]
        · intro more isReturn
          exact absurd isReturn notReturn
        · exact notReturn
        · exact notFeed
      rw [longer, longer]
      cases offset with
      | zero =>
          rw [positionIn_consFirst_zero, positionIn_consFirst_zero]
      | succ offset =>
          rw [positionIn_consFirst, positionIn_consFirst,
            inductionHypothesis index offset (Nat.le_of_succ_le_succ inside)]

end Line

namespace Text

namespace SameFront

variable {left right : Text} {offset : Nat}

theorem getElem?_eq
    (same : SameFront left right offset)
    {place : Nat} (notBehind : place ≤ offset) :
    left[place]? = right[place]? := by
  rcases same with rfl | ⟨front, leftBack, rightBack, rfl, rfl, inside⟩
  · rfl
  · have inFront : place < (front ++ [CodePoint.scalar '\n']).length := by
      rw [List.length_append, List.length_singleton]
      omega
    rw [List.append_cons, List.append_cons front _ rightBack, List.getElem?_append_left inFront,
      List.getElem?_append_left inFront]

theorem surrogateBefore
    (same : SameFront left right offset)
    (before : right.SurrogateBefore offset) :
    left.SurrogateBefore offset := by
  obtain ⟨place, index, inFront, found, noStart⟩ := before
  rw [← same.getElem?_eq (Nat.le_of_lt inFront)] at found
  refine ⟨place, index, inFront, found, fun start starts notBehind => ?_⟩
  refine noStart start ((startsLine_iff_getElem? ..).mpr ?_) notBehind
  rcases (startsLine_iff_getElem? ..).mp starts with isZero | ⟨earlier, rfl, breaks⟩
  · exact Or.inl isZero
  · rw [same.getElem?_eq (by omega), same.getElem?_eq notBehind] at breaks
    exact Or.inr ⟨earlier, rfl, breaks⟩

theorem positionFor_eq
    (same : SameFront left right offset) :
    right.positionFor offset = left.positionFor offset := by
  unfold positionFor
  rcases same with equal | ⟨front, back, otherBack, isText, isOther, insideFront⟩
  · rw [equal]
  · rw [isText, isOther]
    exact Line.positionIn_front 0 front otherBack back offset insideFront

end SameFront

end Text

theorem Document.positionAt_of_sameFront
    {document other : Document} {offset : Nat} {position : Position}
    (tabled : document.Tabled) (otherTabled : other.Tabled)
    (inside : offset ≤ document.text.length)
    (same : Text.SameFront document.text other.text offset)
    (found : document.positionAt offset = .ok position) :
    other.positionAt offset = .ok position := by
  obtain ⟨clear, isPosition⟩ := (tabled.positionAt_eq_ok_iff inside position).mp found
  refine (otherTabled.positionAt_eq_ok_iff (same.le_length inside) position).mpr ⟨?_, ?_⟩
  · exact fun before => clear (same.surrogateBefore before)
  · rw [same.positionFor_eq, isPosition]

/-! ## Edits from the back -/

def TextEdit.change (edit : TextEdit) : Change :=
  { text := edit.text, range := some edit.range }

def Edit.revision (edit : Edit) : Revision :=
  .stretch edit.patch

namespace Edit

theorem makeAll_reverse
    {edits : List Edit}
    (fromFront : ∀ edit ∈ edits, edit.FromFront) (text : Text) :
    Revision.makeAll (edits.reverse.map revision) text =
      edits.foldr (fun edit current => edit.apply current) text := by
  induction edits with
  | nil =>
      rfl
  | cons edit rest inductionHypothesis =>
      have laterFront : ∀ other ∈ rest, other.FromFront :=
        fun other member => fromFront other (List.mem_cons_of_mem edit member)
      have made := inductionHypothesis laterFront
      unfold Revision.makeAll at made ⊢
      rw [List.reverse_cons, List.map_append, List.foldl_append, made, List.foldr_cons,
        apply_of_fromFront (fromFront edit List.mem_cons_self)]
      rfl

/-- Edits that are well placed one behind the other, each later one behind a line feed. -/
structure Lined (text : Text) (edits : List Edit) : Prop where
  placed : ∀ edit ∈ edits, edit.WellPlaced text
  fed : ∀ edit ∈ edits, 0 < edit.patch.start →
    (text.take edit.patch.start).getLast? = some (CodePoint.scalar '\n')
  inOrder : InOrder text.length 0 (edits.map patch)
  apart : Apart (edits.map patch)

variable {text : Text} {edit : Edit} {edits : List Edit}

theorem Lined.tail
    (lined : Lined text (edit :: edits)) :
    Lined text edits where
  placed := fun other member => lined.placed other (List.mem_cons_of_mem edit member)
  fed := fun other member => lined.fed other (List.mem_cons_of_mem edit member)
  inOrder := lined.inOrder.2.2.of_le (Nat.zero_le _)
  apart := (List.pairwise_cons.mp lined.apart).2

theorem Lined.fromFront
    (lined : Lined text edits) :
    ∀ edit ∈ edits, edit.FromFront := by
  intro edit member
  have placed := lined.placed edit member
  have starts := placed.fromFront
  have stops := placed.nonempty
  exact ⟨starts, by omega⟩

/-- Later edits leave the text up to the line feed in front of them. -/
theorem Lined.sameFront
    (lined : Lined text (edit :: edits)) :
    Text.SameFront text (edits.foldr (fun later current => later.apply current) text)
      edit.patch.stop := by
  cases edits with
  | nil =>
      exact Or.inl rfl
  | cons next others =>
      have order : edit.patch.stop < next.patch.start :=
        (List.pairwise_cons.mp lined.apart).1 next.patch List.mem_cons_self
      obtain ⟨_, stops, laterInOrder⟩ := lined.tail.inOrder
      have startInside : next.patch.start ≤ text.length :=
        Nat.le_trans stops laterInOrder.le_limit
      obtain ⟨front, isFront⟩ :=
        List.getLast?_eq_some_iff.mp
          (lined.fed next (by simp) (Nat.lt_of_le_of_lt (Nat.zero_le _) order))
      have frontLength : front.length + 1 = next.patch.start := by
        have counted := congrArg List.length isFront
        rw [List.length_take, List.length_append, List.length_singleton] at counted
        omega
      have made :=
        foldr_apply lined.tail.fromFront
          (show InOrder text.length next.patch.start ((next :: others).map patch) from
            ⟨Nat.le_refl _, stops, laterInOrder⟩)
      refine
        Or.inr
          ⟨front, text.drop next.patch.start,
            splice text next.patch.start ((next :: others).map patch), ?_, ?_, by omega⟩
      · conv => lhs; rw [← List.take_append_drop next.patch.start text, isFront]
        simp
      · rw [made, isFront]
        simp

end Edit

namespace Document

open Outcome

variable {document : Document}

/-- An edit of a document is reported alike in every text with the same front. -/
theorem report_revision
    {other : Document} {edit : Edit} {textEdit : TextEdit}
    (tabled : document.Tabled) (otherTabled : other.Tabled)
    (placed : edit.WellPlaced document.text)
    (same : Text.SameFront document.text other.text edit.patch.stop)
    (told : document.textEdit edit = .ok textEdit) :
    other.report edit.revision = .ok textEdit.change := by
  have startFront := placed.fromFront
  have order := placed.nonempty
  have inside := placed.inside
  have isStart : ((edit.patch.start : Nat) : Int) = edit.start := Int.toNat_of_nonneg startFront
  have isStop : ((edit.patch.stop : Nat) : Int) = edit.stop :=
    Int.toNat_of_nonneg (by omega)
  obtain ⟨range, isRange, rfl⟩ := bind_pure_eq_ok_iff.mp told
  obtain ⟨start, startFound, isRange⟩ := bind_eq_ok_iff.mp isRange
  obtain ⟨stop, stopFound, rfl⟩ := bind_pure_eq_ok_iff.mp isRange
  rw [← isStart] at startFound
  rw [← isStop] at stopFound
  have startSame := positionAt_of_sameFront tabled otherTabled
    (show edit.patch.start ≤ document.text.length by omega) (same.of_le (by omega)) startFound
  have stopSame := positionAt_of_sameFront tabled otherTabled
    (show edit.patch.stop ≤ document.text.length by omega) same stopFound
  simp only [Edit.revision, report, rangeAt, startSame, stopSame]
  rfl

theorem fits_revision
    {text other : Text} {edit : Edit}
    (placed : edit.WellPlaced text)
    (same : Text.SameFront text other edit.patch.stop) :
    edit.revision.Fits other := by
  have startFront := placed.fromFront
  have nonempty := placed.nonempty
  have inside := placed.inside
  have order : edit.patch.start ≤ edit.patch.stop := by
    simp only [Edit.patch]
    omega
  have stopInside : edit.patch.stop ≤ text.length := by
    simp only [Edit.patch]
    omega
  refine ⟨order, same.le_length stopInside, ?_, ?_⟩
  · intro splits
    exact placed.start_whole ((same.of_le order).splitsReturnFeed splits)
  · intro splits
    exact placed.stop_whole (same.splitsReturnFeed splits)

/-- Edits that are made from the back are reported by the ranges they had before. -/
theorem reports_reverse
    (tabled : document.Tabled)
    {edits : List Edit} {textEdits : List TextEdit}
    (lined : Edit.Lined document.text edits)
    (told : edits.mapM document.textEdit = .ok textEdits) :
    document.Reports (textEdits.reverse.map TextEdit.change)
      (edits.reverse.map Edit.revision) := by
  induction edits generalizing textEdits with
  | nil =>
      cases told
      exact .nil document
  | cons edit rest inductionHypothesis =>
      rw [List.mapM_cons] at told
      obtain ⟨textEdit, editTold, restTold⟩ := bind_eq_ok_iff.mp told
      obtain ⟨others, othersTold, rfl⟩ := bind_pure_eq_ok_iff.mp restTold
      have later := inductionHypothesis lined.tail othersTold
      have placed := lined.placed edit List.mem_cons_self
      have same := lined.sameFront
      rw [← Edit.makeAll_reverse lined.tail.fromFront] at same
      let current :=
        document.update (Revision.makeAll (rest.reverse.map Edit.revision) document.text)
          document.version
      have reported : current.report edit.revision = .ok textEdit.change :=
        report_revision tabled (document.update_tabled ..) placed same editTold
      rw [List.reverse_cons, List.map_append, List.reverse_cons, List.map_append]
      apply later.append tabled
      rw [later.batch_eq tabled, List.map_singleton, List.map_singleton]
      exact .cons reported (fits_revision placed same) (.nil _)

end Document

/-! ## The edits of a scan -/

theorem getLast?_take_start
    {options : Options} {passes : List String} {text : Text} {edit : Edit}
    (member : edit ∈ scan options passes text)
    (notFirst : 0 < edit.patch.start) :
    (text.take edit.patch.start).getLast? = some (CodePoint.scalar '\n') := by
  obtain ⟨finding, _, final, makes, _⟩ := exists_makes_of_mem_scan member
  have cut : Line.CutAtFeeds (Source.ofText text).lines := Line.cutAtFeeds_ofFeeds text
  have joined : Line.join (Source.ofText text).lines = text := Line.join_ofFeeds text
  have nonempty := makes.nonempty
  have lastInside := (List.getElem?_eq_some_iff.mp makes.found).1
  have taken := Line.take_offsetOf (Source.ofText text).lines (finding.patch options).start
  rw [joined, ← makes.start_eq] at taken
  rw [taken]
  cases isIndex : (finding.patch options).start with
  | zero =>
      have isFirst := makes.start_eq
      rw [isIndex] at isFirst
      exact absurd (isFirst.trans rfl) (Nat.ne_of_gt notFirst)
  | succ index =>
      exact Source.getLast?_join_take_succ cut (by omega)

theorem lined_scan
    (options : Options) (passes : List String) (text : Text) :
    Edit.Lined text (scan options passes text) := by
  have joined : Line.join (Source.ofText text).lines = text := Line.join_ofFeeds text
  have endsOnce : Line.EndsOnce (Source.ofText text).endings :=
    (Line.cutAtFeeds_ofFeeds text).endsOnce
  have fitAll := fitAll_findings options passes text
  have order := fitAll.edits_inOrder
  have apart := fitAll.edits_apart endsOnce
  rw [← scan_eq_editsOf] at order apart
  rw [joined] at order
  exact
    { placed := fun edit member => wellPlaced_of_mem_scan member
      fed := fun edit member => getLast?_take_start member
      inOrder := order
      apart := apart }

/-- Making the edits of a scan from the back formats the text. -/
theorem makeAll_scan
    (options : Options) (passes : List String) (text : Text) :
    Revision.makeAll ((scan options passes text).reverse.map Edit.revision) text =
      format options passes text := by
  have lined := lined_scan options passes text
  have rising :
      (scan options passes text).Pairwise fun earlier later => earlier.start < later.start := by
    refine (List.pairwise_map.mp lined.apart).imp_of_mem ?_
    intro earlier later earlierMember laterMember apart
    have earlierFront := (lined.placed earlier earlierMember).fromFront
    have laterFront := (lined.placed later laterMember).fromFront
    have nonempty := (lined.placed earlier earlierMember).nonempty
    simp only [Edit.patch] at apart
    omega
  rw [Edit.makeAll_reverse lined.fromFront, format, Edit.applyAll,
    Edit.mergeSort_eq_reverse rising, List.foldl_reverse]

/-! ## Formatting and reporting back -/

namespace Workspace

open Outcome

/-- A client that makes the edits of a formatting request and reports them, the last one
first and by the ranges it was given, leaves the server with the formatted text. -/
theorem formatDocument_converges
    {before : Logged Workspace} {document : Document}
    (isOpen : before.state.document? document.uri = some document)
    (tabled : document.Tabled)
    (free : before.state.guard.isBusy document.uri = false) :
    (∀ edits after, formatDocument document.uri before = (.ok edits, after) →
      ∀ version, ∃ current,
        current =
            document.update
              (format before.state.options (before.state.passesFor document) document.text)
              version ∧
          (didChange document.uri version (edits.reverse.map TextEdit.change) after).1 =
            .ok current ∧
          (didChange document.uri version (edits.reverse.map TextEdit.change)
            after).2.state.document? document.uri = some current) ∧
    (document.text.Encodable →
      ∃ edits, (formatDocument document.uri before).1 =
        (Scan.ofText before.state.options (before.state.passesFor document)
          document.text).edits.map fun _ => edits) := by
  let options := before.state.options
  let passes := before.state.passesFor document
  have outcome := formatDocument_eq isOpen free
  constructor
  · intro edits after answered version
    have lined := lined_scan options passes document.text
    have told : (scan options passes document.text).mapM document.textEdit = .ok edits := by
      rw [answered] at outcome
      obtain ⟨found, scanned, told⟩ := bind_eq_ok_iff.mp outcome.symm
      rwa [Scan.edits_of_ok scanned] at told
    have reports := Document.reports_reverse tabled lined told
    have made := makeAll_scan options passes document.text
    have stillOpen : after.state.document? document.uri = some document := by
      have unchanged := formatDocument_state document.uri before
      rw [answered] at unchanged
      rw [unchanged, isOpen]
    refine ⟨_, rfl, ?_, ?_⟩
    · rw [didChange_of_reports stillOpen tabled version reports, made]
    · rw [didChange_of_reports stillOpen tabled version reports, made, document?_withDocument]
      exact if_pos rfl
  · intro encodable
    obtain ⟨edits, told⟩ :=
      Document.exists_textEdits tabled encodable (scan options passes document.text)
    refine ⟨edits, outcome.trans ?_⟩
    cases scanned : (Scan.ofText options passes document.text).edits with
    | error fault =>
        rfl
    | ok found =>
        rw [← Scan.edits_of_ok scanned] at told
        exact told

theorem formatDocument_converges_mixed :
    (holding mixedBreaks).state.document? mixedBreaks.uri = some mixedBreaks ∧
      (holding mixedBreaks).state.guard.isBusy mixedBreaks.uri = false ∧
      ∃ edits after,
        formatDocument mixedBreaks.uri (holding mixedBreaks) = (.ok edits, after) ∧
          (didChange mixedBreaks.uri 4 (edits.reverse.map TextEdit.change)
              after).2.state.document? mixedBreaks.uri =
            some (mixedBreaks.update mixedFormatted 4) := by
  have scanned :
      (Scan.ofText (holding mixedBreaks).state.options ["sortImports"] mixedBreaks.text).edits =
        .ok (scan {} ["sortImports"] mixedBreaks.text) :=
    Scan.edits_of_indent rfl ["sortImports"] mixedBreaks.text
  have isOpen : (holding mixedBreaks).state.document? mixedBreaks.uri = some mixedBreaks := rfl
  have free : (holding mixedBreaks).state.guard.isBusy mixedBreaks.uri = false := rfl
  have encodable : mixedBreaks.text.Encodable :=
    (Text.encodable_ofList _).append (Text.encodable_ofList _)
  obtain ⟨converges, answers⟩ :=
    formatDocument_converges isOpen (Document.ofItem_tabled _) free
  obtain ⟨edits, answered⟩ := answers encodable
  have isOk := answered.trans (congrArg (Except.map fun _ => edits) scanned)
  obtain ⟨current, isCurrent, _, stored⟩ := converges edits _ (Prod.ext isOk rfl) 4
  refine ⟨isOpen, free, edits, _, Prod.ext isOk rfl, ?_⟩
  rw [stored, isCurrent, ← format_mixedBreaks]
  rfl

end Workspace

end Tidy
