import Tidy.Proofs.ModelStability

/-!
# Formatting part by part

The search for regions looks ahead as far as it has to: to the line that closes a model, to
the line that ends an import, and to the end of a run.  Where a text ends with a line feed
and leaves nothing open, no search that starts in it looks past its end, so that it and what
stands behind it are formatted on their own.
-/

namespace Tidy

open Patch

/-! ## Lines behind a line feed -/

namespace Line

theorem CutAtFeeds.append
    {front lines : List Line}
    (fits : ∀ line ∈ front, FitsFeed line)
    (ended : ∀ line ∈ front, line.ending ≠ .none)
    (cut : CutAtFeeds lines) :
    CutAtFeeds (front ++ lines) := by
  induction front with
  | nil =>
      exact cut
  | cons line rest inductionHypothesis =>
      obtain ⟨lineFits, restFits⟩ := List.forall_mem_cons.mp fits
      obtain ⟨lineEnded, restEnded⟩ := List.forall_mem_cons.mp ended
      exact (inductionHypothesis restFits restEnded).cons lineFits lineEnded

/-- A text that ends with a line feed has an empty last line, which another text behind it
takes over. -/
theorem exists_ofFeeds_append
    {text : Text}
    (ends : text.getLast? = some (CodePoint.scalar '\n')) :
    ∃ front, join front = text ∧ ofFeeds text = front ++ [⟨[], .none⟩] ∧
      ∀ behind, ofFeeds (text ++ behind) = front ++ ofFeeds behind := by
  have cut := cutAtFeeds_ofFeeds text
  obtain ⟨endings, shape, noneMissing⟩ := cut.endsOnce
  obtain ⟨front, lasts, split, rfl, isLast⟩ := List.map_eq_append_iff.mp shape
  obtain ⟨last, rfl, unended⟩ := List.map_eq_singleton_iff.mp isLast
  have fits : ∀ line ∈ front, FitsFeed line := by
    intro line member
    apply cut.fits
    rw [split]
    exact List.mem_append_left _ member
  have ended : ∀ line ∈ front, line.ending ≠ .none :=
    fun line member isNone => noneMissing (isNone ▸ List.mem_map_of_mem member)
  have joined : text = join front ++ last.text := by
    rw [← join_ofFeeds text, split, join_append]
    simp [join, unended, Ending.text]
  have isEmpty : last.text = [] := by
    cases shape : last.text.getLast? with
    | none =>
        exact List.getLast?_eq_none_iff.mp shape
    | some character =>
        rw [joined, List.getLast?_append, shape] at ends
        cases ends
        have lastFits := cut.fits last (by rw [split]; simp)
        exact absurd (List.mem_of_getLast? shape) lastFits.noFeed
  rw [isEmpty, List.append_nil] at joined
  refine ⟨front, joined.symm, ?_, ?_⟩
  · rw [split, ← isEmpty, ← unended]
  · intro behind
    have whole : join (front ++ ofFeeds behind) = text ++ behind := by
      rw [join_append, join_ofFeeds, joined]
    rw [← whole]
    exact ofFeeds_join (CutAtFeeds.append fits ended (cutAtFeeds_ofFeeds behind))

end Line

/-! ## Searching part by part -/

namespace Import

theorem isModelStart_of_isStart
    {line : Text}
    (starts : isStart line = true) :
    isModelStart line = false := by
  obtain ⟨rest, stripped, _⟩ := (isStart_iff line).mp starts
  apply Bool.eq_false_iff.mpr
  intro isModel
  obtain ⟨others, rfl⟩ : ∃ others, modelWord ++ others = line :=
    List.isPrefixOf_iff_prefix.mp (Bool.and_eq_true_iff.mp isModel).1
  have unchanged : (modelWord ++ others).stripLeft = modelWord ++ others := rfl
  rw [unchanged] at stripped
  exact absurd (List.cons.inj stripped).1 (by decide)

theorem runLength_eq_zero
    {lines : List Text}
    (startsNone : ∀ line, lines.head? = some line → isStart line = false) :
    runLength lines = 0 := by
  cases lines with
  | nil =>
      rw [runLength]
  | cons line following =>
      rw [runLength, if_neg (by simp [startsNone line rfl])]

/-- What stands behind a run may be exchanged for other lines that start none. -/
theorem runLength_append_congr
    {run after other : List Text}
    (isRun : runLength (run ++ after) = run.length)
    (startsNone : runLength other = 0) :
    runLength (run ++ other) = run.length := by
  obtain ⟨finished, _⟩ := finished_of_runLength isRun
  have found := runLength_flatMap_lines finished other
  rw [flatMap_lines_statements, startsNone] at found
  exact found

end Import

namespace Finding

/-- A finding as many lines further down. -/
def moved (count : Nat) : Finding → Finding
  | .model first body => .model (first + count) body
  | .unclosedModel line => .unclosedModel (line + count)
  | .imports first run => .imports (first + count) run
  | .unfinishedImport line => .unfinishedImport (line + count)

/-- Whether lines behind those that were searched have no part in a finding: no import is
unfinished, and a model without a closing line is closed on its own line. -/
def Settled (lines : List Text) : Finding → Prop
  | .unclosedModel line => ∃ opening, lines[line]? = some opening ∧ opening.closesBrace = true
  | .unfinishedImport _ => False
  | .model _ _ => True
  | .imports _ _ => True

end Finding

namespace Scanned

variable {models imports : Bool} {options : Options} {index : Nat}
  {lines written : List Text} {found : List Finding}

/-- The search does not depend on where it starts to count. -/
theorem moved
    (count : Nat)
    (scanned : Scanned models imports options index lines found written) :
    Scanned models imports options (index + count) lines (found.map (Finding.moved count))
      written := by
  induction scanned with
  | nothing index =>
      exact nothing (index + count)
  | line notModel notStart _ inductionHypothesis =>
      rw [Nat.add_right_comm] at inductionHypothesis
      exact line notModel notStart inductionHypothesis
  | unclosedModel isModel noBody _ inductionHypothesis =>
      rw [Nat.add_right_comm] at inductionHypothesis
      exact unclosedModel isModel noBody inductionHypothesis
  | @model index _ _ body _ _ _ isModel isBody _ inductionHypothesis =>
      have sameIndex :
          index + 1 + body.length + 1 + count = index + count + 1 + body.length + 1 := by
        omega
      rw [sameIndex] at inductionHypothesis
      have whole := model isModel isBody inductionHypothesis
      rw [Nat.add_right_comm] at whole
      exact whole
  | unfinishedImport notModel isStart unfinished _ inductionHypothesis =>
      rw [Nat.add_right_comm] at inductionHypothesis
      exact unfinishedImport notModel isStart unfinished inductionHypothesis
  | @imports index _ tail _ _ _ notModel isStart isRun _ inductionHypothesis =>
      have sameIndex : index + tail.length + 1 + count = index + count + tail.length + 1 := by
        omega
      rw [sameIndex] at inductionHypothesis
      exact .imports notModel isStart isRun inductionHypothesis

/-- An import that never ends is found. -/
theorem mem_of_runLength
    {line : Text} {following : List Text}
    (scanned : Scanned models imports options index (line :: following) found written)
    (sorts : imports = true)
    (starts : Import.isStart line = true)
    (unfinished : Import.runLength (line :: following) = 0) :
    .unfinishedImport index ∈ found := by
  have notModel : (models && isModelStart line) = false := by
    rw [Import.isModelStart_of_isStart starts, Bool.and_false]
  have isStart : (imports && Import.isStart line) = true := by
    rw [sorts, starts]
    rfl
  rw [← scanned.eq_search, Finding.search, if_neg (by simp [notModel]), if_pos isStart, unfinished]
  exact List.mem_cons_self

/-- Whether lines behind those of a search close nothing that it has left open: they hold no
closing brace, or nothing was left open. -/
def ClosesNothing (whole rest : List Text) (found : List Finding) : Prop :=
  (∀ line ∈ rest, CodePoint.scalar '\x7d' ∉ line) ∨ ∀ finding ∈ found, finding.Settled whole

theorem ClosesNothing.tail
    {whole rest : List Text} {finding : Finding}
    (closesNothing : ClosesNothing whole rest (finding :: found)) :
    ClosesNothing whole rest found :=
  closesNothing.imp_right fun settled => (List.forall_mem_cons.mp settled).2

/-- A run ends in front of other lines, too. -/
theorem runLength_append_eq_zero
    {whole rest : List Text}
    (scanned : Scanned models imports options index lines found written)
    (sorts : imports = true)
    (ended : Import.runLength lines = 0)
    (startsNone : ∀ line, rest.head? = some line → Import.isStart line = false)
    (closesNothing : ClosesNothing whole rest found) :
    Import.runLength (lines ++ rest) = 0 := by
  cases lines with
  | nil =>
      exact Import.runLength_eq_zero startsNone
  | cons line following =>
      cases starts : Import.isStart line with
      | false =>
          apply Import.runLength_eq_zero
          intro first isFirst
          cases isFirst
          exact starts
      | true =>
          rcases closesNothing with noBrace | settled
          · obtain ⟨leavesOpen, noClosing⟩ := (Import.runLength_eq_zero_iff _ starts).mp ended
            apply (Import.runLength_eq_zero_iff _ starts).mpr
            exact ⟨leavesOpen, List.forall_mem_append.mpr ⟨noClosing, noBrace⟩⟩
          · exact absurd (settled _ (scanned.mem_of_runLength sorts starts ended)) id

/-- The search through further lines goes on as if it started there. -/
theorem append
    {rest writtenRest : List Text} {foundRest : List Finding}
    (scanned : Scanned models imports options index lines found written)
    {before behind : List Text}
    (beforeLength : before.length = index)
    (startsNone : imports = true → ∀ line, rest.head? = some line → Import.isStart line = false)
    (closesNothing : ClosesNothing (before ++ (lines ++ behind)) rest found)
    (restScanned :
      Scanned models imports options (index + lines.length) rest foundRest writtenRest) :
    Scanned models imports options index (lines ++ rest) (found ++ foundRest)
      (written ++ writtenRest) := by
  induction scanned generalizing before with
  | nothing index =>
      exact restScanned
  | line notModel notStart _ inductionHypothesis =>
      rw [List.cons_append, List.append_cons] at closesNothing
      rw [List.length_cons, ← Nat.succ_add_eq_add_succ] at restScanned
      exact .line notModel notStart
        (inductionHypothesis (by simp [beforeLength]) closesNothing restScanned)
  | @unclosedModel index opening following _ _ isModel noBody _ inductionHypothesis =>
      have stillNoBody : modelBody? opening (following ++ rest) = none := by
        rw [modelBody?_eq_none_iff] at noBody ⊢
        rcases noBody with closesItself | keepOpen
        · exact Or.inl closesItself
        · rcases closesNothing with noBrace | settled
          · refine Or.inr (List.forall_mem_append.mpr ⟨keepOpen, ?_⟩)
            intro line member
            apply bne_iff_ne.mpr
            intro isClosing
            exact noBrace line member (List.mem_of_mem_head? isClosing)
          · obtain ⟨_, isOpening, closesItself⟩ := settled _ List.mem_cons_self
            rw [List.getElem?_append_right (by omega), beforeLength, Nat.sub_self] at isOpening
            cases isOpening
            exact Or.inl closesItself
      have closesNoneLater := closesNothing.tail
      rw [List.cons_append, List.append_cons] at closesNoneLater
      rw [List.length_cons, ← Nat.succ_add_eq_add_succ] at restScanned
      exact .unclosedModel isModel stillNoBody
        (inductionHypothesis (by simp [beforeLength]) closesNoneLater restScanned)
  | @model index opening closing body after written found isModel isBody _ inductionHypothesis =>
      have regrouped (others : List Text) :
          opening :: (body ++ closing :: after) ++ others =
            opening :: (body ++ [closing]) ++ (after ++ others) := by
        simp
      have sameBody : modelBody? opening (body ++ closing :: (after ++ rest)) = some body :=
        modelBody?_eq_some_iff.mpr (modelBody?_eq_some_iff.mp isBody)
      have reached :
          (before ++ opening :: (body ++ [closing])).length = index + 1 + body.length + 1 := by
        simp only [List.length_append, List.length_cons, List.length_nil, beforeLength]
        omega
      have closesNoneLater := closesNothing.tail
      rw [regrouped, ← List.append_assoc] at closesNoneLater
      have sameIndex :
          index + (opening :: (body ++ closing :: after)).length =
            index + 1 + body.length + 1 + after.length := by
        simp only [List.length_append, List.length_cons]
        omega
      rw [sameIndex] at restScanned
      have whole :=
        model isModel sameBody (inductionHypothesis reached closesNoneLater restScanned)
      simpa using whole
  | @unfinishedImport index line following _ _ notModel isStart unfinished scanned
      inductionHypothesis =>
      have stillUnfinished : Import.runLength (line :: (following ++ rest)) = 0 := by
        obtain ⟨sorts, starts⟩ := Bool.and_eq_true_iff.mp isStart
        have found := Scanned.unfinishedImport notModel isStart unfinished scanned
        exact found.runLength_append_eq_zero sorts unfinished (startsNone sorts) closesNothing
      have closesNoneLater := closesNothing.tail
      rw [List.cons_append, List.append_cons] at closesNoneLater
      rw [List.length_cons, ← Nat.succ_add_eq_add_succ] at restScanned
      exact .unfinishedImport notModel isStart stillUnfinished
        (inductionHypothesis (by simp [beforeLength]) closesNoneLater restScanned)
  | @imports index head tail after written found notModel isStart isRun scanned
      inductionHypothesis =>
      have sorts : imports = true := (Bool.and_eq_true_iff.mp isStart).1
      have closesNoneLater := closesNothing.tail
      have ended : Import.runLength after = 0 :=
        (@Import.finished_of_runLength (head :: tail) after isRun).2
      have sameRun : Import.runLength (head :: tail ++ (after ++ rest)) = tail.length + 1 :=
        Import.runLength_append_congr isRun
          (scanned.runLength_append_eq_zero sorts ended (startsNone sorts) closesNoneLater)
      have reached : (before ++ head :: tail).length = index + tail.length + 1 := by
        rw [List.length_append, List.length_cons, beforeLength]
        omega
      have sameIndex :
          index + (head :: (tail ++ after)).length = index + tail.length + 1 + after.length := by
        rw [List.length_cons, List.length_append]
        omega
      rw [← List.cons_append, List.append_assoc, ← List.append_assoc before] at closesNoneLater
      rw [sameIndex] at restScanned
      have whole :=
        Scanned.imports notModel isStart sameRun
          (inductionHypothesis reached closesNoneLater restScanned)
      simpa using whole

/-- An empty line at the end closes nothing and starts nothing. -/
theorem concat_empty
    (scanned : Scanned models imports options 0 lines found written) :
    Scanned models imports options 0 (lines ++ [[]]) found (written ++ [[]]) := by
  have noModel : (models && isModelStart []) = false := Bool.and_false models
  have noImport : (imports && Import.isStart []) = false := Bool.and_false imports
  have emptyScanned :
      Scanned models imports options (0 + lines.length) [[]] [] [[]] :=
    .line noModel noImport (.nothing _)
  have startsNone :
      imports = true → ∀ line, [[]].head? = some line → Import.isStart line = false := by
    rintro _ line ⟨⟩
    rfl
  have closesNothing : ClosesNothing ([] ++ (lines ++ [])) [[]] found :=
    Or.inl (by simp)
  have whole := scanned.append rfl startsNone closesNothing emptyScanned
  rw [List.append_nil] at whole
  exact whole

end Scanned

/-! ## Edits part by part -/

def Patch.moved {Item : Type} (count : Nat) (patch : Patch Item) : Patch Item :=
  ⟨patch.start + count, patch.stop + count, patch.items⟩

def Edit.moved (count : Nat) (edit : Edit) : Edit :=
  ⟨edit.start + count, edit.stop + count, edit.text⟩

theorem Edit.patch_moved
    {edit : Edit} (fromFront : edit.FromFront) (count : Nat) :
    (edit.moved count).patch = edit.patch.moved count := by
  obtain ⟨startFront, stopFront⟩ := fromFront
  simp only [patch, moved, Patch.moved, Patch.mk.injEq, and_true]
  omega

theorem Finding.patch_moved
    (options : Options) (count : Nat) (finding : Finding) :
    (finding.moved count).patch options = (finding.patch options).moved count := by
  cases finding <;>
    simp only [moved, Finding.patch, Patch.moved, first, region, rewritten, Nat.add_right_comm]

theorem Line.offsetOf_append
    (front lines : List Line) (index : Nat) :
    offsetOf (front ++ lines) (index + front.length) =
      (join front).length + offsetOf lines index := by
  unfold offsetOf
  rw [Nat.add_comm, List.take_length_add_append, join_append, List.length_append]

namespace Source

theorem take_drop_append
    {Item : Type} (front items : List Item) (start stop : Nat) :
    ((front ++ items).take (stop + front.length)).drop (start + front.length) =
      (items.take stop).drop start := by
  rw [Nat.add_comm stop, List.take_length_add_append, Nat.add_comm start,
    List.drop_length_add_append]

variable {whole rest : Source} {front : List Line} {patch : Patch Text}

/-- An edit that makes a patch of some lines makes it behind other lines, too. -/
theorem Makes.moved
    {final : Line} {edit : Edit}
    (split : whole.lines = front ++ rest.lines)
    (makes : rest.Makes patch final edit) :
    whole.Makes (patch.moved front.length) final (edit.moved (Line.join front).length) := by
  have nonempty := makes.nonempty
  have lastIndex : patch.stop + front.length - 1 = patch.stop - 1 + front.length := by omega
  have isPatch := edit.patch_moved makes.fromFront (Line.join front).length
  obtain ⟨startFront, stopFront⟩ := makes.fromFront
  refine
    { nonempty := Nat.add_lt_add_right nonempty _
      found := ?_
      fromFront := ⟨by simp only [Edit.moved]; omega, by simp only [Edit.moved]; omega⟩
      start_eq := ?_
      stop_eq := ?_
      woven := ?_ }
  · simp only [Patch.moved]
    rw [split, lastIndex, List.getElem?_append_right (Nat.le_add_left ..), Nat.add_sub_cancel,
      makes.found]
  · rw [isPatch]
    simp only [Patch.moved]
    rw [split, Line.offsetOf_append, makes.start_eq, Nat.add_comm]
  · rw [isPatch]
    simp only [Patch.moved]
    rw [split, lastIndex, Line.offsetOf_append, makes.stop_eq]
    omega
  · have sameEndings : whole.endingsOf (patch.moved front.length) = rest.endingsOf patch := by
      simp only [endingsOf, endings, split, List.map_append, Patch.moved]
      rw [← List.length_map Line.ending, take_drop_append]
    rw [sameEndings]
    exact makes.woven

theorem editOf?_moved
    (split : whole.lines = front ++ rest.lines)
    (fits : rest.Fits patch) :
    whole.editOf? (patch.moved front.length) =
      (rest.editOf? patch).map (Edit.moved (Line.join front).length) := by
  have sameReplaced : whole.replaced (patch.moved front.length) = rest.replaced patch := by
    simp only [replaced, texts, split, List.map_append, Patch.moved]
    rw [← List.length_map Line.text, take_drop_append]
  by_cases unchanged : patch.items = rest.replaced patch
  · have alsoUnchanged :
        (patch.moved front.length).items = whole.replaced (patch.moved front.length) :=
      unchanged.trans sameReplaced.symm
    rw [editOf?_eq_none unchanged, editOf?_eq_none alsoUnchanged]
    rfl
  · have movedFits : whole.Fits (patch.moved front.length) :=
      { start_le_stop := Nat.add_le_add_right fits.start_le_stop _
        stop_le_length := by
          have bound := fits.stop_le_length
          simp only [Patch.moved]
          rw [split, List.length_append]
          omega
        sameLength := by
          simp only [Patch.moved]
          rw [fits.sameLength]
          omega }
    have alsoChanged :
        (patch.moved front.length).items ≠ whole.replaced (patch.moved front.length) := by
      rw [sameReplaced]
      exact unchanged
    obtain ⟨edit, final, isEdit, makes⟩ := exists_editOf? fits unchanged
    obtain ⟨another, other, isAnother, alsoMakes⟩ := exists_editOf? movedFits alsoChanged
    rw [isEdit, isAnother, alsoMakes.unique (makes.moved split)]
    rfl

end Source

/-! ## Texts part by part -/

/-- Whether nothing that stands behind a text has a part in its findings. -/
def LeavesNothingOpen (passes : List String) (text : Text) : Prop :=
  ∀ finding ∈ findings passes (Source.ofText text), finding.Settled (Source.ofText text).texts

/-- Whether no import starts on the first line of a text, if imports are sorted. -/
def StartsNoImport (passes : List String) (text : Text) : Prop :=
  passes.contains Formatter.sortImports.name = true →
    ∀ line, (Source.ofText text).texts.head? = some line → Import.isStart line = false

/-- Two texts whose lines are searched and written one behind the other: `lines` are those of
the front text without the empty one at its end, and `written` is what becomes of them. -/
structure Parts (options : Options) (passes : List String) (front behind : Text)
    (lines : List Line) (written : List Text) : Prop where
  join_eq : Line.join lines = front
  front_lines : (Source.ofText front).lines = lines ++ [⟨[], .none⟩]
  whole_lines : (Source.ofText (front ++ behind)).lines = lines ++ (Source.ofText behind).lines
  findings_eq :
    findings passes (Source.ofText (front ++ behind)) =
      findings passes (Source.ofText front) ++
        (findings passes (Source.ofText behind)).map (Finding.moved lines.length)
  inOrder :
    InOrder lines.length 0
      ((findings passes (Source.ofText front)).map (Finding.patch options))
  front_written : relaidLines options passes front = written ++ [[]]
  whole_written :
    relaidLines options passes (front ++ behind) = written ++ relaidLines options passes behind

theorem exists_parts
    (options : Options) {passes : List String} {front behind : Text}
    (ends : front.getLast? = some (CodePoint.scalar '\n'))
    (settled : LeavesNothingOpen passes front)
    (startsNone : StartsNoImport passes behind) :
    ∃ lines written, Parts options passes front behind lines written := by
  obtain ⟨lines, joined, frontCut, wholeCut⟩ := Line.exists_ofFeeds_append ends
  have frontTexts : (Source.ofText front).texts = lines.map Line.text ++ [[]] := by
    change (Line.ofFeeds front).map Line.text = _
    rw [frontCut, List.map_append]
    rfl
  have wholeTexts :
      (Source.ofText (front ++ behind)).texts =
        lines.map Line.text ++ (Source.ofText behind).texts := by
    change (Line.ofFeeds (front ++ behind)).map Line.text = _
    rw [wholeCut, List.map_append]
    rfl
  obtain ⟨written, scanned⟩ :=
    Scanned.exists_of_search (passes.contains Formatter.formatModelFields.name)
      (passes.contains Formatter.sortImports.name) options 0 (lines.map Line.text)
  have frontScanned := scanned.concat_empty
  rw [← frontTexts] at frontScanned
  have frontFound := frontScanned.eq_search
  have closesNothing :
      Scanned.ClosesNothing ([] ++ (lines.map Line.text ++ [[]])) (Source.ofText behind).texts
        (findings passes (Source.ofText front)) := by
    rw [List.nil_append, ← frontTexts]
    exact Or.inr settled
  rw [← frontFound] at scanned
  have behindScanned := (scanned_relaidLines options passes behind).moved lines.length
  rw [← List.length_map Line.text] at behindScanned
  have wholeScanned := scanned.append rfl startsNone closesNothing behindScanned
  rw [← wholeTexts, List.length_map] at wholeScanned
  have order := scanned.inOrder
  rw [Nat.zero_add, List.length_map] at order
  exact
    ⟨lines, written,
      { join_eq := joined
        front_lines := frontCut
        whole_lines := wholeCut behind
        findings_eq := wholeScanned.eq_search
        inOrder := order
        front_written := relaidLines_eq_of_scanned frontScanned
        whole_written := relaidLines_eq_of_scanned wholeScanned }⟩

namespace Parts

variable {options : Options} {passes : List String} {front behind : Text}
  {lines : List Line} {written : List Text}

theorem length_written
    (parts : Parts options passes front behind lines written) :
    written.length = (lines.map Line.ending).length := by
  have sameLength := length_relaidLines options passes front
  rw [parts.front_written, Source.endings, parts.front_lines, List.map_append,
    List.length_append, List.length_append] at sameLength
  exact Nat.add_right_cancel sameLength

theorem format_eq
    (parts : Parts options passes front behind lines written) :
    format options passes (front ++ behind) =
      format options passes front ++ format options passes behind := by
  have sameLength := parts.length_written
  have frontFormat :
      format options passes front =
        Line.join (List.zipWith Line.mk written (lines.map Line.ending)) := by
    rw [format_eq_join, relaid, parts.front_written, Source.endings, parts.front_lines,
      List.map_append, List.zipWith_append sameLength, Line.join_append]
    exact List.append_nil _
  rw [frontFormat, format_eq_join, format_eq_join, relaid, relaid, parts.whole_written,
    Source.endings, parts.whole_lines, List.map_append, List.zipWith_append sameLength,
    Line.join_append]
  rfl

/-- The findings of the front text make the edits that they make without the other text. -/
theorem editsOf_front
    (parts : Parts options passes front behind lines written) :
    (Source.ofText (front ++ behind)).editsOf
        ((findings passes (Source.ofText front)).map (Finding.patch options)) =
      scan options passes front := by
  rw [scan_eq_editsOf]
  apply List.filterMap_congr
  intro patch member
  obtain ⟨_, ordered, within⟩ := parts.inOrder.bounds patch member
  have keepsLength := keepLengths_findings options passes front patch member
  apply Source.editOf?_eq_of_take
  · refine ⟨ordered, ?_, keepsLength⟩
    rw [parts.whole_lines, List.length_append]
    omega
  · refine ⟨ordered, ?_, keepsLength⟩
    rw [parts.front_lines, List.length_append]
    omega
  · rw [parts.whole_lines, parts.front_lines, List.take_append_of_le_length within,
      List.take_append_of_le_length within]

/-- The findings of the text behind make its edits as far behind the front text. -/
theorem editsOf_behind
    (parts : Parts options passes front behind lines written) :
    (Source.ofText (front ++ behind)).editsOf
        (((findings passes (Source.ofText behind)).map (Finding.moved lines.length)).map
          (Finding.patch options)) =
      (scan options passes behind).map (Edit.moved front.length) := by
  rw [scan_eq_editsOf, Source.editsOf, Source.editsOf, List.map_map, List.filterMap_map,
    List.filterMap_map, List.map_filterMap]
  apply List.filterMap_congr
  intro finding member
  have fits :=
    (fitAll_findings options passes behind).fits (List.mem_map_of_mem member)
  have sameEdit := Source.editOf?_moved parts.whole_lines fits
  rw [parts.join_eq, ← Finding.patch_moved] at sameEdit
  exact sameEdit

theorem scan_eq
    (parts : Parts options passes front behind lines written) :
    scan options passes (front ++ behind) =
      scan options passes front ++ (scan options passes behind).map (Edit.moved front.length) := by
  rw [scan_eq_editsOf, parts.findings_eq, List.map_append, Source.editsOf, List.filterMap_append]
  exact congrArg₂ _ parts.editsOf_front parts.editsOf_behind

theorem any_laysOutFields
    (parts : Parts options passes front behind lines written) :
    (findings passes (Source.ofText (front ++ behind))).any Finding.laysOutFields =
      ((findings passes (Source.ofText front)).any Finding.laysOutFields ||
        (findings passes (Source.ofText behind)).any Finding.laysOutFields) := by
  have unmoved : Finding.laysOutFields ∘ Finding.moved lines.length = Finding.laysOutFields := by
    funext finding
    cases finding <;> rfl
  rw [parts.findings_eq, List.any_append, List.any_map, unmoved]

end Parts

/-- A text that ends with a line feed and leaves nothing open is formatted apart from what
stands behind it.  The edits are those of the one text followed by those of the other, moved
behind the first; an indent that cannot be written out stops the scan of both as it stops
the scan of one of them. -/
theorem format_append
    (options : Options) {passes : List String} {front behind : Text}
    (ends : front.getLast? = some (CodePoint.scalar '\n'))
    (settled : LeavesNothingOpen passes front)
    (startsNone : StartsNoImport passes behind) :
    format options passes (front ++ behind) =
        format options passes front ++ format options passes behind ∧
      scan options passes (front ++ behind) =
        scan options passes front ++ (scan options passes behind).map (Edit.moved front.length) ∧
      (Scan.ofText options passes (front ++ behind)).edits =
        (do
          let edits ← (Scan.ofText options passes front).edits
          let others ← (Scan.ofText options passes behind).edits
          return edits ++ others.map (Edit.moved front.length)) := by
  obtain ⟨lines, written, parts⟩ := exists_parts options ends settled startsNone
  refine ⟨parts.format_eq, parts.scan_eq, ?_⟩
  rw [Scan.edits_eq, Scan.edits_eq, Scan.edits_eq, parts.any_laysOutFields, parts.scan_eq]
  cases options.indentFault? with
  | none =>
      rfl
  | some fault =>
      cases (findings passes (Source.ofText front)).any Finding.laysOutFields <;>
        cases (findings passes (Source.ofText behind)).any Finding.laysOutFields <;> rfl

/-- Imports in front of a model on one line and a model over several lines, and another import
at the end. -/
def settledImports : Text :=
  ("import z from 'z'\r\nimport \x7b\n b, a \x7d from 'a'\nmodel A \x7b \x7d\n" ++
    "model B \x7b\n id   Int\n\x7d\nimport c from 'c'\n")

theorem format_append_settled :
    findings (Formatter.all.map Formatter.name) (Source.ofText settledImports) =
        [.imports 0
            ["import z from 'z'", "import \x7b", " b, a \x7d from 'a'"],
          .unclosedModel 3, .model 5 [" id   Int"],
          .imports 7 ["import c from 'c'"]] ∧
      format {} (Formatter.all.map Formatter.name)
          (settledImports ++ "model C \x7b\n x    Int\n\x7d") =
        format {} (Formatter.all.map Formatter.name) settledImports ++
          format {} (Formatter.all.map Formatter.name)
            ("model C \x7b\n x    Int\n\x7d" : Text) := by
  have found :
      findings (Formatter.all.map Formatter.name) (Source.ofText settledImports) =
        [.imports 0
            ["import z from 'z'", "import \x7b", " b, a \x7d from 'a'"],
          .unclosedModel 3, .model 5 [" id   Int"],
          .imports 7 ["import c from 'c'"]] := by
    decide +kernel
  have onOneLine :
      (Source.ofText settledImports).texts[3]? = some ("model A \x7b \x7d" : Text) := by
    decide +kernel
  have settled : LeavesNothingOpen (Formatter.all.map Formatter.name) settledImports := by
    unfold LeavesNothingOpen
    rw [found]
    simp only [List.forall_mem_cons]
    exact ⟨trivial, ⟨_, onOneLine, by decide⟩, trivial, trivial, List.forall_mem_nil _⟩
  refine ⟨found, (format_append {} (by decide +kernel) settled ?_).1⟩
  intro _ line isFirst
  cases isFirst
  rfl

end Tidy
