import Tidy.Proofs.LineWise
import Tidy.Proofs.Positions

/-!
# The edits of a text

The edits of a scan stand apart from one another.  Each of them runs from the start
of a line to the end of a line's characters, and puts something else there.
-/

namespace Tidy

open Patch

/-! ## What a scan answers -/

theorem Scan.edits_eq
    (options : Options) (passes : List String) (text : Text) :
    (Scan.ofText options passes text).edits =
      match options.indentFault? with
      | none => .ok (scan options passes text)
      | some fault =>
          if (findings passes (Source.ofText text)).any Finding.laysOutFields then .error fault
          else .ok (scan options passes text) := by
  unfold Scan.ofText
  cases options.indentFault? <;>
    cases anyFields : (findings passes (Source.ofText text)).any Finding.laysOutFields <;>
      simp only [anyFields] <;> rfl

/-- A scan finds the edits of the text, unless fields are laid out and their indent cannot
be written out. -/
theorem Scan.edits_cases
    (options : Options) (passes : List String) (text : Text) :
    (Scan.ofText options passes text).edits = .ok (scan options passes text) ∧
        (options.indentFault? = none ∨
          ∀ finding ∈ findings passes (Source.ofText text), finding.laysOutFields = false) ∨
      ∃ fault, options.indentFault? = some fault ∧
        (Scan.ofText options passes text).edits = .error fault := by
  rw [Scan.edits_eq]
  cases isFault : options.indentFault? with
  | none =>
      exact Or.inl ⟨rfl, Or.inl rfl⟩
  | some fault =>
      cases anyFields : (findings passes (Source.ofText text)).any Finding.laysOutFields with
      | false =>
          exact Or.inl ⟨rfl, Or.inr (by simpa using anyFields)⟩
      | true =>
          exact Or.inr ⟨fault, rfl, rfl⟩

theorem Scan.edits_of_ok
    {options : Options} {passes : List String} {text : Text} {edits : List Edit}
    (isOk : (Scan.ofText options passes text).edits = .ok edits) :
    edits = scan options passes text := by
  rcases Scan.edits_cases options passes text with ⟨isScanned, _⟩ | ⟨fault, _, failed⟩
  · cases isOk.symm.trans isScanned
    rfl
  · cases isOk.symm.trans failed

theorem Scan.edits_of_indent
    {options : Options} (writable : options.indentFault? = none)
    (passes : List String) (text : Text) :
    (Scan.ofText options passes text).edits = .ok (scan options passes text) := by
  rcases Scan.edits_cases options passes text with ⟨isScanned, _⟩ | ⟨fault, isFault, _⟩
  · exact isScanned
  · cases isFault.symm.trans writable

/-! ## Edits and line breaks -/

namespace Source

/-- The lines in front of another one end with a line feed. -/
theorem getLast?_join_take_succ
    {source : Source} (cut : Line.CutAtFeeds source.lines)
    {count : Nat} (inside : count + 1 < source.lines.length) :
    (Line.join (source.lines.take (count + 1))).getLast? = some (CodePoint.scalar '\n') := by
  obtain ⟨line, found⟩ : ∃ line, source.lines[count]? = some line :=
    ⟨_, List.getElem?_eq_getElem (Nat.lt_of_succ_lt inside)⟩
  have ends := ending_length_pos cut.endsOnce found inside
  have fits := cut.fits line (List.mem_of_getElem? found)
  rw [List.take_add_one, found, Option.toList_some, Line.join_append]
  cases isEnding : line.ending with
  | none =>
      rw [isEnding] at ends
      cases ends
  | feed | returnFeed =>
      simp [Line.join, isEnding, Ending.text]
  | carriageReturn =>
      exact absurd isEnding fits.noLoneReturn

theorem getLast?_join_take
    {source : Source} (cut : Line.CutAtFeeds source.lines)
    {count : Nat} (inside : count < source.lines.length) :
    (Line.join (source.lines.take count)).getLast? ≠ some (CodePoint.scalar '\r') := by
  cases count with
  | zero =>
      simp [Line.join]
  | succ count =>
      rw [getLast?_join_take_succ cut inside]
      decide

namespace Makes

variable {source : Source} {patch : Patch Text} {final : Line} {edit : Edit}

/-- The text up to the end of an edit, and what stands behind it. -/
theorem join_eq
    (makes : source.Makes patch final edit) :
    Line.join source.lines =
      (Line.join (source.lines.take (patch.stop - 1)) ++ final.text) ++
        (final.ending.text ++ Line.join (source.lines.drop patch.stop)) := by
  conv => lhs; rw [← List.take_append_drop patch.stop source.lines, makes.take_stop]
  simp [Line.join]

theorem stop_le_length
    (makes : source.Makes patch final edit) :
    edit.patch.stop ≤ (Line.join source.lines).length := by
  rw [makes.join_eq, List.length_append, List.length_append, makes.stop_eq]
  exact Nat.le_add_right ..

theorem not_splits_start
    (makes : source.Makes patch final edit)
    (cut : Line.CutAtFeeds source.lines) :
    ¬ Text.SplitsReturnFeed (Line.join source.lines) edit.patch.start := by
  intro splits
  have inside : patch.start < source.lines.length := by
    have nonempty := makes.nonempty
    have lastInside := (List.getElem?_eq_some_iff.mp makes.found).1
    omega
  have isReturn := splits.around.1
  rw [makes.start_eq, Line.take_offsetOf] at isReturn
  exact getLast?_join_take cut inside isReturn

theorem not_splits_stop
    (makes : source.Makes patch final edit)
    (cut : Line.CutAtFeeds source.lines) :
    ¬ Text.SplitsReturnFeed (Line.join source.lines) edit.patch.stop := by
  intro splits
  have lastInside := (List.getElem?_eq_some_iff.mp makes.found).1
  have fits := cut.fits final (List.mem_of_getElem? makes.found)
  have stopLength :
      (Line.join (source.lines.take (patch.stop - 1)) ++ final.text).length =
        edit.patch.stop := by
    rw [List.length_append, makes.stop_eq]
    rfl
  obtain ⟨isReturn, isFeed⟩ := splits.around
  rw [makes.join_eq, List.take_left' stopLength, List.getLast?_append] at isReturn
  rw [makes.join_eq, List.drop_left' stopLength] at isFeed
  have isTextReturn : final.text.getLast? = some (CodePoint.scalar '\r') := by
    cases lastOfText : final.text.getLast? with
    | none =>
        rw [lastOfText] at isReturn
        exact absurd isReturn (getLast?_join_take cut lastInside)
    | some character =>
        rw [lastOfText] at isReturn
        exact isReturn
  cases isEnding : final.ending with
  | none =>
      have isEnd : source.lines.drop patch.stop = [] := by
        apply List.drop_eq_nil_of_le
        rcases Nat.lt_or_ge patch.stop source.lines.length with notLast | isLast
        · have nonempty := makes.nonempty
          have ends := ending_length_pos cut.endsOnce makes.found (by omega)
          rw [isEnding] at ends
          cases ends
        · exact isLast
      rw [isEnding, isEnd] at isFeed
      cases isFeed
  | feed =>
      exact fits.noReturnBeforeFeed isEnding isTextReturn
  | returnFeed =>
      rw [isEnding] at isFeed
      cases isFeed
  | carriageReturn =>
      exact fits.noLoneReturn isEnding

end Makes

end Source

/-! ## Edits that change something -/

namespace Source.Makes

variable {source : Source} {patch : Patch Text} {final : Line} {edit : Edit}

/-- An edit is empty only when it replaces one line without characters. -/
theorem start_lt_stop
    (makes : source.Makes patch final edit)
    (endsOnce : Line.EndsOnce source.endings)
    (filled : patch.stop = patch.start + 1 → final.text ≠ []) :
    edit.patch.start < edit.patch.stop := by
  have nonempty := makes.nonempty
  have lastInside := (List.getElem?_eq_some_iff.mp makes.found).1
  rw [makes.start_eq, makes.stop_eq]
  by_cases single : patch.stop = patch.start + 1
  · have characters : 0 < final.text.length := List.length_pos_iff.mpr (filled single)
    have sameLine : patch.stop - 1 = patch.start := by omega
    rw [sameLine]
    omega
  · obtain ⟨line, found⟩ : ∃ line, source.lines[patch.start]? = some line :=
      ⟨_, List.getElem?_eq_getElem (by omega)⟩
    have ended := ending_length_pos endsOnce found (by omega)
    have next := Line.offsetOf_succ found
    have order :=
      Line.offsetOf_le_of_le source.lines (show patch.start + 1 ≤ patch.stop - 1 by omega)
    unfold Line.width at next
    omega

theorem replaced_of_single
    (makes : source.Makes patch final edit)
    (single : patch.stop = patch.start + 1) :
    source.replaced patch = [final.text] := by
  have before : (source.lines.take (patch.stop - 1)).length = patch.start := by
    have lastInside := (List.getElem?_eq_some_iff.mp makes.found).1
    rw [List.length_take]
    omega
  rw [replaced, texts, ← List.map_take, makes.take_stop, ← List.map_drop, List.drop_left' before]
  rfl

/-- The text that an edit replaces, with the ending behind it, is the replaced lines. -/
theorem replaced_text
    (makes : source.Makes patch final edit) :
    ((Line.join source.lines).take edit.patch.stop).drop edit.patch.start ++ final.ending.text =
      Line.join ((source.lines.take patch.stop).drop patch.start) := by
  have stopEnding := makes.stop_add_ending
  have nonempty := makes.nonempty
  rw [← Line.take_drop_offsetOf source.lines (Nat.le_of_lt nonempty), ← makes.start_eq,
    ← makes.ending_follows]
  exact drop_append_gap _ makes.start_le_stop (by omega)

end Source.Makes

/-! ## Patched lines -/

namespace Source

variable {source : Source} {patch : Patch Text}

def patched (source : Source) (patch : Patch Text) : List Line :=
  source.lines.take patch.start ++ List.zipWith Line.mk patch.items (source.endingsOf patch) ++
    source.lines.drop patch.stop

theorem length_endingsOf
    (fits : source.Fits patch) :
    patch.items.length = (source.endingsOf patch).length := by
  have bound := fits.stop_le_length
  rw [fits.sameLength, endingsOf, List.length_drop, List.length_take, endings, List.length_map,
    Nat.min_eq_left bound]

theorem map_ending_patched
    (fits : source.Fits patch) :
    (source.patched patch).map Line.ending = source.endings := by
  rw [patched, List.map_append, List.map_append, map_ending_zipWith (length_endingsOf fits),
    endingsOf, List.map_take, List.map_drop]
  change source.endings.take _ ++ _ ++ source.endings.drop _ = source.endings
  rw [take_append_gap _ fits.start_le_stop, List.take_append_drop]

/-- Clean new lines keep the lines a cut at line feeds. -/
theorem cutAtFeeds_patched
    (fits : source.Fits patch)
    (cut : Line.CutAtFeeds source.lines)
    (clean : ∀ line ∈ patch.items, CodePoint.scalar '\n' ∉ line ∧ Text.EndsTight line) :
    Line.CutAtFeeds (source.patched patch) where
  fits := by
    intro line member
    rcases List.mem_append.mp member with front | behind
    · rcases List.mem_append.mp front with before | inPatch
      · exact cut.fits line (List.mem_of_mem_take before)
      · obtain ⟨index, found⟩ := List.mem_iff_getElem?.mp inPatch
        obtain ⟨text, ending, textFound, endingFound, rfl⟩ :=
          List.getElem?_zipWith_eq_some.mp found
        have inEndings : ending ∈ source.lines.map Line.ending :=
          List.mem_of_mem_take (List.mem_of_mem_drop (List.mem_of_getElem? endingFound))
        obtain ⟨original, originalMember, rfl⟩ := List.mem_map.mp inEndings
        obtain ⟨noFeed, tight⟩ := clean text (List.mem_of_getElem? textFound)
        exact Line.fitsFeed_of_endsTight noFeed tight
          (cut.fits original originalMember).noLoneReturn
    · exact cut.fits line (List.mem_of_mem_drop behind)
  endsOnce := by
    rw [map_ending_patched fits]
    exact cut.endsOnce

/-- An edit of a patch that changes lines changes the text. -/
theorem Makes.replaced_text_ne
    {final : Line} {edit : Edit}
    (makes : source.Makes patch final edit)
    (cut : Line.CutAtFeeds source.lines)
    (fits : source.Fits patch)
    (clean : ∀ line ∈ patch.items, CodePoint.scalar '\n' ∉ line ∧ Text.EndsTight line)
    (changed : patch.items ≠ source.replaced patch) :
    ((Line.join source.lines).take edit.patch.stop).drop edit.patch.start ≠ edit.text := by
  intro same
  have split :
      source.lines =
        source.lines.take patch.start ++ (source.lines.take patch.stop).drop patch.start ++
          source.lines.drop patch.stop := by
    rw [take_append_gap _ fits.start_le_stop, List.take_append_drop]
  have sameJoin : Line.join (source.patched patch) = Line.join source.lines := by
    conv => rhs; rw [split]
    rw [patched, Line.join_append, Line.join_append, Line.join_append, Line.join_append,
      ← makes.woven, ← makes.replaced_text, same]
  have sameLines : source.patched patch = source.lines := by
    rw [← Line.ofFeeds_join (cutAtFeeds_patched fits cut clean), sameJoin, Line.ofFeeds_join cut]
  have samePatch :
      List.zipWith Line.mk patch.items (source.endingsOf patch) =
        (source.lines.take patch.stop).drop patch.start := by
    exact List.append_cancel_left (List.append_cancel_right (sameLines.trans split))
  have sameTexts := congrArg (List.map Line.text) samePatch
  rw [map_text_zipWith (length_endingsOf fits), List.map_drop, List.map_take] at sameTexts
  exact changed sameTexts

end Source

/-! ## The edits of a scan -/

/-- One line without characters is written as it stands. -/
theorem Finding.rewritten_of_empty
    {finding : Finding} (options : Options)
    (isEmpty : finding.region = [[]]) :
    finding.rewritten options = [[]] := by
  cases finding with
  | model first body =>
      obtain rfl : body = [[]] := isEmpty
      rfl
  | imports first run =>
      obtain rfl : run = [[]] := isEmpty
      have cut : Import.statements [[]] = [⟨[], []⟩] := by
        rw [Import.statements, List.take_nil, List.drop_nil, Import.statements]
      have sorted : Import.sort [⟨[], []⟩] = [⟨[], []⟩] :=
        List.perm_singleton.mp (Import.sort_perm [⟨[], []⟩])
      change Import.sortLines [[]] = [[]]
      rw [Import.sortLines, cut, sorted]
      rfl
  | unclosedModel line =>
      cases isEmpty
  | unfinishedImport line =>
      cases isEmpty

/-- An edit that puts something else in place of some lines, the ending of the last one
left out. -/
structure Edit.WellPlaced (text : Text) (edit : Edit) : Prop where
  fromFront : 0 ≤ edit.start
  nonempty : edit.start < edit.stop
  inside : edit.stop ≤ text.length
  startsLine :
    ∃ (index start : Nat), (Source.ofText text).offsets[index]? = some start ∧ edit.start = start
  endsLine :
    ∃ (index start : Nat) (line : Line),
      (Source.ofText text).offsets[index]? = some start ∧
      (Source.ofText text).lines[index]? = some line ∧
      edit.stop = start + line.text.length
  start_whole : ¬ Text.SplitsReturnFeed text edit.start.toNat
  stop_whole : ¬ Text.SplitsReturnFeed text edit.stop.toNat
  changes : Index.slice text edit.start edit.stop ≠ edit.text

theorem replaced_patch
    (options : Options) {passes : List String} {text : Text} {finding : Finding}
    (member : finding ∈ findings passes (Source.ofText text)) :
    (Source.ofText text).replaced (finding.patch options) = finding.region :=
  (scanned_relaidLines options passes text).region_eq List.length_nil member

/-- Every edit makes the patch of a finding that is not written as it stands. -/
theorem exists_makes_of_mem_scan
    {options : Options} {passes : List String} {text : Text} {edit : Edit}
    (member : edit ∈ scan options passes text) :
    ∃ finding ∈ findings passes (Source.ofText text), ∃ final,
      (Source.ofText text).Makes (finding.patch options) final edit ∧
      finding.rewritten options ≠ finding.region := by
  obtain ⟨finding, findingMember, isEdit⟩ := List.mem_filterMap.mp member
  rw [Finding.edit?_eq_editOf?] at isEdit
  have fits :=
    (fitAll_findings options passes text).fits (List.mem_map_of_mem findingMember)
  obtain ⟨final, makes⟩ := Source.makes_of_editOf? fits isEdit
  refine ⟨finding, findingMember, final, makes, ?_⟩
  intro unchanged
  rw [← replaced_patch options findingMember] at unchanged
  rw [Source.editOf?_eq_none unchanged] at isEdit
  cases isEdit

theorem wellPlaced_of_mem_scan
    {options : Options} {passes : List String} {text : Text} {edit : Edit}
    (member : edit ∈ scan options passes text) :
    edit.WellPlaced text := by
  obtain ⟨finding, findingMember, final, makes, changed⟩ := exists_makes_of_mem_scan member
  have fits :=
    (fitAll_findings options passes text).fits (List.mem_map_of_mem findingMember)
  have isRegion := replaced_patch options findingMember
  have cut : Line.CutAtFeeds (Source.ofText text).lines := Line.cutAtFeeds_ofFeeds text
  have joined : Line.join (Source.ofText text).lines = text := Line.join_ofFeeds text
  have nonempty := makes.nonempty
  have lastInside := (List.getElem?_eq_some_iff.mp makes.found).1
  have filled :
      (finding.patch options).stop = (finding.patch options).start + 1 → final.text ≠ [] := by
    intro single isEmpty
    have isSingle := makes.replaced_of_single single
    rw [isRegion, isEmpty] at isSingle
    exact changed ((Finding.rewritten_of_empty options isSingle).trans isSingle.symm)
  have startBeforeStop := makes.start_lt_stop cut.endsOnce filled
  have stopInside := makes.stop_le_length
  have startWhole := makes.not_splits_start cut
  have stopWhole := makes.not_splits_stop cut
  have changes :=
    makes.replaced_text_ne cut fits (clean_of_mem_findings findingMember)
      (by rw [isRegion]; exact changed)
  rw [joined] at stopInside startWhole stopWhole changes
  obtain ⟨startFront, stopFront⟩ := makes.fromFront
  have isStart : ((edit.patch.start : Nat) : Int) = edit.start := Int.toNat_of_nonneg startFront
  have isStop : ((edit.patch.stop : Nat) : Int) = edit.stop := Int.toNat_of_nonneg stopFront
  refine
    { fromFront := startFront
      nonempty := by omega
      inside := by omega
      startsLine := ⟨_, _, Line.offsets_getElem? 0 (Nat.lt_of_lt_of_le nonempty (by omega)), ?_⟩
      endsLine := ⟨_, _, final, Line.offsets_getElem? 0 lastInside, makes.found, ?_⟩
      start_whole := startWhole
      stop_whole := stopWhole
      changes := ?_ }
  · rw [← isStart, makes.start_eq, Nat.zero_add]
  · rw [← isStop, makes.stop_eq, Nat.zero_add, Int.natCast_add]
  · rw [← isStart, ← isStop, Index.slice_of_nat]
    exact changes

/-- The edits of a text follow one another and stand apart, and each of them is well
placed. -/
theorem scan_wellPlaced
    (options : Options) (passes : List String) (text : Text) :
    ((scan options passes text).Pairwise fun earlier later =>
        earlier.start < later.start ∧ earlier.stop < later.start) ∧
      ∀ edit ∈ scan options passes text, edit.WellPlaced text := by
  refine ⟨?_, fun edit member => wellPlaced_of_mem_scan member⟩
  have endsOnce : Line.EndsOnce (Source.ofText text).endings :=
    (Line.cutAtFeeds_ofFeeds text).endsOnce
  have apart := (fitAll_findings options passes text).edits_apart endsOnce
  rw [← scan_eq_editsOf] at apart
  refine (List.pairwise_map.mp apart).imp_of_mem ?_
  intro earlier later earlierMember laterMember stopsBefore
  have earlierPlaced := wellPlaced_of_mem_scan earlierMember
  have startsBefore := earlierPlaced.nonempty
  have laterFront := (wellPlaced_of_mem_scan laterMember).fromFront
  have separated : earlier.stop < later.start := by
    simp only [Edit.patch] at stopsBefore
    have earlierFront := earlierPlaced.fromFront
    omega
  exact ⟨by omega, separated⟩

end Tidy
