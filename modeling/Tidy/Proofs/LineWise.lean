import Tidy.Proofs.Regions

/-!
# Formatting line by line

Formatting a text is done on its lines alone: the lines of every region are
written anew, every other line is copied, and each line keeps the ending that
stood behind it.  Cutting the formatted text gives exactly these lines back.
-/

namespace Tidy

open Patch

def relaidLines (options : Options) (passes : List String) (text : Text) : List Text :=
  splice (Source.ofText text).texts 0
    ((findings passes (Source.ofText text)).map (Finding.patch options))

/-- The new lines of a text, each with the ending of the line it replaces. -/
def relaid (options : Options) (passes : List String) (text : Text) : List Line :=
  List.zipWith Line.mk (relaidLines options passes text) (Source.ofText text).endings

/-! ## The findings of a text -/

section Findings

variable (options : Options) (passes : List String) (text : Text)

theorem scanned_relaidLines :
    Scanned (passes.contains Formatter.formatModelFields.name)
      (passes.contains Formatter.sortImports.name) options 0 (Source.ofText text).texts
      (findings passes (Source.ofText text)) (relaidLines options passes text) := by
  obtain ⟨written, scanned⟩ :=
    Scanned.exists_of_search (passes.contains Formatter.formatModelFields.name)
      (passes.contains Formatter.sortImports.name) options 0 (Source.ofText text).texts
  have isWritten : relaidLines options passes text = written :=
    scanned.splice_eq (List.length_nil)
  rw [isWritten]
  exact scanned

theorem inOrder_findings :
    InOrder (Source.ofText text).texts.length 0
      ((findings passes (Source.ofText text)).map (Finding.patch options)) := by
  have order := (scanned_relaidLines options passes text).inOrder
  rw [Nat.zero_add] at order
  exact order

theorem keepLengths_findings :
    KeepLengths ((findings passes (Source.ofText text)).map (Finding.patch options)) := by
  intro patch member
  obtain ⟨finding, _, rfl⟩ := List.mem_map.mp member
  simp [Finding.patch]

theorem fitAll_findings :
    (Source.ofText text).FitAll 0
      ((findings passes (Source.ofText text)).map (Finding.patch options)) where
  inOrder := by
    rw [← List.length_map Line.text]
    exact inOrder_findings options passes text
  keepLengths := keepLengths_findings options passes text

theorem scan_eq_editsOf :
    scan options passes text =
      (Source.ofText text).editsOf
        ((findings passes (Source.ofText text)).map (Finding.patch options)) :=
  Finding.filterMap_edit? options (Source.ofText text) (findings passes (Source.ofText text))

end Findings

/-! ## The formatted text -/

theorem format_eq_join
    (options : Options) (passes : List String) (text : Text) :
    format options passes text = Line.join (relaid options passes text) := by
  have whole : Line.join (Source.ofText text).lines = text := Line.join_ofFeeds text
  have endsOnce : Line.EndsOnce (Source.ofText text).endings :=
    (Line.cutAtFeeds_ofFeeds text).endsOnce
  have applied := (fitAll_findings options passes text).applyAll_edits endsOnce
  rw [whole, ← scan_eq_editsOf] at applied
  exact applied

theorem length_relaidLines
    (options : Options) (passes : List String) (text : Text) :
    (relaidLines options passes text).length = (Source.ofText text).endings.length := by
  unfold relaidLines
  rw [length_splice (inOrder_findings options passes text)
    (keepLengths_findings options passes text)]
  simp [Source.texts, Source.endings]

/-- A new line has no line feed in it and ends without a blank. -/
theorem Finding.rewritten_clean
    {options : Options} {finding : Finding}
    (noFeed : ∀ line ∈ finding.region, CodePoint.scalar '\n' ∉ line) :
    ∀ line ∈ finding.rewritten options, CodePoint.scalar '\n' ∉ line ∧ Text.EndsTight line := by
  cases finding with
  | model first body =>
      exact Block.align_clean noFeed
  | imports first run =>
      exact Import.sortLines_clean noFeed
  | unclosedModel line =>
      intro line member
      cases member
  | unfinishedImport line =>
      intro line member
      cases member

/-- A line without a blank at its end takes any ending of a cut at line feeds. -/
theorem Line.fitsFeed_of_endsTight
    {text : Text} {ending : Ending}
    (noFeed : CodePoint.scalar '\n' ∉ text)
    (tight : Text.EndsTight text)
    (noLoneReturn : ending ≠ .carriageReturn) :
    FitsFeed ⟨text, ending⟩ where
  noFeed := noFeed
  noLoneReturn := noLoneReturn
  noReturnBeforeFeed := by
    intro _ isReturn
    exact absurd (tight '\r' isReturn) (by decide)

theorem map_ending_relaid
    (options : Options) (passes : List String) (text : Text) :
    (relaid options passes text).map Line.ending = (Source.ofText text).endings :=
  Source.map_ending_zipWith (length_relaidLines options passes text)

theorem map_text_relaid
    (options : Options) (passes : List String) (text : Text) :
    (relaid options passes text).map Line.text = relaidLines options passes text :=
  Source.map_text_zipWith (length_relaidLines options passes text)

/-- A line of the new text is a line that stood there, or a new line with the old ending. -/
theorem relaidLines_cases
    {options : Options} {passes : List String} {text line : Text} {index : Nat}
    (found : (relaidLines options passes text)[index]? = some line) :
    (Source.ofText text).texts[index]? = some line ∨
      ∃ finding ∈ findings passes (Source.ofText text), line ∈ finding.rewritten options := by
  rcases
      splice_getElem?_cases (inOrder_findings options passes text)
        (keepLengths_findings options passes text) (Nat.zero_le index) found with
    stays | ⟨patch, member, isNew⟩
  · exact Or.inl stays
  · obtain ⟨finding, findingMember, rfl⟩ := List.mem_map.mp member
    exact Or.inr ⟨finding, findingMember, isNew⟩

theorem clean_of_mem_findings
    {options : Options} {passes : List String} {text : Text} {finding : Finding}
    (member : finding ∈ findings passes (Source.ofText text)) :
    ∀ line ∈ finding.rewritten options, CodePoint.scalar '\n' ∉ line ∧ Text.EndsTight line := by
  apply Finding.rewritten_clean
  intro old oldMember
  have searched :=
    (scanned_relaidLines options passes text).mem_of_mem_region member oldMember
  obtain ⟨oldLine, oldLineMember, rfl⟩ := List.mem_map.mp searched
  exact ((Line.cutAtFeeds_ofFeeds text).fits oldLine oldLineMember).noFeed

theorem cutAtFeeds_relaid
    (options : Options) (passes : List String) (text : Text) :
    Line.CutAtFeeds (relaid options passes text) := by
  have cut : Line.CutAtFeeds (Source.ofText text).lines := Line.cutAtFeeds_ofFeeds text
  refine { fits := ?_, endsOnce := ?_ }
  · intro line member
    obtain ⟨index, found⟩ := List.mem_iff_getElem?.mp member
    obtain ⟨lineText, ending, textFound, endingFound, rfl⟩ :=
      List.getElem?_zipWith_eq_some.mp found
    rw [Source.endings, List.getElem?_map] at endingFound
    obtain ⟨original, originalFound, rfl⟩ := Option.map_eq_some_iff.mp endingFound
    have originalFits := cut.fits original (List.mem_of_getElem? originalFound)
    rcases relaidLines_cases textFound with stays | ⟨finding, findingMember, isNew⟩
    · have sameText : lineText = original.text := by
        rw [Source.texts, List.getElem?_map, originalFound] at stays
        exact (Option.some.inj stays).symm
      rw [sameText]
      exact originalFits
    · obtain ⟨clean, tight⟩ := clean_of_mem_findings findingMember lineText isNew
      exact Line.fitsFeed_of_endsTight clean tight originalFits.noLoneReturn
  · rw [map_ending_relaid]
    exact cut.endsOnce

/-- Cutting the formatted text gives the new lines with their endings. -/
theorem lines_format
    (options : Options) (passes : List String) (text : Text) :
    (Source.ofText (format options passes text)).lines = relaid options passes text := by
  rw [format_eq_join]
  exact Line.ofFeeds_join (cutAtFeeds_relaid options passes text)

theorem texts_format
    (options : Options) (passes : List String) (text : Text) :
    (Source.ofText (format options passes text)).texts = relaidLines options passes text := by
  rw [Source.texts, lines_format, map_text_relaid]

theorem endings_format
    (options : Options) (passes : List String) (text : Text) :
    (Source.ofText (format options passes text)).endings = (Source.ofText text).endings := by
  rw [Source.endings, lines_format, map_ending_relaid]

/-- A line of no region keeps its place, its characters and its ending. -/
theorem relaid_getElem?_of_outside
    {options : Options} {passes : List String} {text : Text} {index : Nat}
    (outside : ∀ finding ∈ findings passes (Source.ofText text), ¬ finding.Covers index) :
    (relaid options passes text)[index]? = (Source.ofText text).lines[index]? := by
  have sameText :
      (relaidLines options passes text)[index]? = (Source.ofText text).texts[index]? := by
    apply splice_getElem?_of_outside (inOrder_findings options passes text)
      (keepLengths_findings options passes text) (Nat.zero_le index)
    intro patch member
    obtain ⟨finding, findingMember, rfl⟩ := List.mem_map.mp member
    exact outside finding findingMember
  unfold relaid
  rw [List.getElem?_zipWith', sameText, ← List.getElem?_zipWith', Source.texts, Source.endings,
    Source.zipWith_text_ending]

/-- A text whose lines are not changed has no edits. -/
theorem scan_eq_nil
    {options : Options} {passes : List String} {text : Text}
    (unchanged : relaidLines options passes text = (Source.ofText text).texts) :
    scan options passes text = [] := by
  have sameItems :=
    items_eq_of_splice_eq (inOrder_findings options passes text)
      (keepLengths_findings options passes text) unchanged
  rw [scan_eq_editsOf]
  apply List.filterMap_eq_nil_iff.mpr
  intro patch member
  exact Source.editOf?_eq_none (sameItems patch member)

theorem relaidLines_eq_of_scanned
    {options : Options} {passes : List String} {text : Text} {found : List Finding}
    {written : List Text}
    (scanned :
      Scanned (passes.contains Formatter.formatModelFields.name)
        (passes.contains Formatter.sortImports.name) options 0 (Source.ofText text).texts
        found written) :
    relaidLines options passes text = written := by
  have isFound : findings passes (Source.ofText text) = found := scanned.eq_search
  unfold relaidLines
  rw [isFound]
  exact scanned.splice_eq List.length_nil

theorem scan_eq_nil_of_scanned
    {options : Options} {passes : List String} {text : Text} {found : List Finding}
    (settled :
      Scanned (passes.contains Formatter.formatModelFields.name)
        (passes.contains Formatter.sortImports.name) options 0 (Source.ofText text).texts
        found (Source.ofText text).texts) :
    scan options passes text = [] := by
  apply scan_eq_nil
  exact relaidLines_eq_of_scanned settled

theorem format_of_scan_eq_nil
    {options : Options} {passes : List String} {text : Text}
    (noEdits : scan options passes text = []) :
    format options passes text = text := by
  rw [format, noEdits]
  exact Edit.applyAll_nil text

/-! ## The ending of gained lines -/

/-- An edit that makes a patch is the only one. -/
theorem Source.Makes.unique
    {source : Source} {patch : Patch Text} {final other : Line} {edit another : Edit}
    (makes : source.Makes patch final edit)
    (alsoMakes : source.Makes patch other another) :
    edit = another := by
  have sameFinal : final = other :=
    Option.some.inj (makes.found.symm.trans alsoMakes.found)
  subst other
  have sameStart : edit.start.toNat = another.start.toNat :=
    makes.start_eq.trans alsoMakes.start_eq.symm
  have sameStop : edit.stop.toNat = another.stop.toNat :=
    makes.stop_eq.trans alsoMakes.stop_eq.symm
  have sameText : edit.text = another.text :=
    List.append_cancel_right (makes.woven.trans alsoMakes.woven.symm)
  obtain ⟨startFront, stopFront⟩ := makes.fromFront
  obtain ⟨otherStartFront, otherStopFront⟩ := alsoMakes.fromFront
  have starts : edit.start = another.start := by omega
  have stops : edit.stop = another.stop := by omega
  cases edit
  cases another
  exact Edit.mk.injEq .. ▸ ⟨starts, stops, sameText⟩

/-- The edit of a patch depends on the lines up to its end alone. -/
theorem Source.editOf?_eq_of_take
    {source other : Source} {patch : Patch Text}
    (fits : source.Fits patch)
    (otherFits : other.Fits patch)
    (sameLines : source.lines.take patch.stop = other.lines.take patch.stop) :
    source.editOf? patch = other.editOf? patch := by
  have sameTake {count : Nat} (within : count ≤ patch.stop) :
      source.lines.take count = other.lines.take count := by
    rw [← Nat.min_eq_left within, ← List.take_take, sameLines, List.take_take]
  have sameReplaced : source.replaced patch = other.replaced patch := by
    simp only [replaced, texts, ← List.map_take, sameLines]
  have sameEndings : source.endingsOf patch = other.endingsOf patch := by
    simp only [endingsOf, endings, ← List.map_take, sameLines]
  by_cases unchanged : patch.items = source.replaced patch
  · rw [editOf?_eq_none unchanged, editOf?_eq_none (unchanged.trans sameReplaced)]
  · obtain ⟨edit, final, isEdit, makes⟩ := exists_editOf? fits unchanged
    obtain ⟨another, last, isAnother, alsoMakes⟩ :=
      exists_editOf? otherFits (sameReplaced ▸ unchanged)
    have nonempty := makes.nonempty
    have transferred : source.Makes patch last another :=
      { nonempty := nonempty
        found := by
          rw [← alsoMakes.found, ← List.getElem?_take_of_lt (Nat.sub_one_lt_of_lt nonempty),
            sameLines, List.getElem?_take_of_lt (Nat.sub_one_lt_of_lt nonempty)]
        fromFront := alsoMakes.fromFront
        start_eq := by
          rw [alsoMakes.start_eq, Line.offsetOf, Line.offsetOf, sameTake (Nat.le_of_lt nonempty)]
        stop_eq := by
          rw [alsoMakes.stop_eq, Line.offsetOf, Line.offsetOf, sameTake (Nat.sub_le ..)]
        woven := by rw [alsoMakes.woven, sameEndings] }
    rw [isEdit, isAnother, makes.unique transferred]

/-- No patch that keeps the number of lines asks for the ending of gained lines. -/
theorem Source.editOf?_newline
    {source : Source} {patch : Patch Text}
    (fits : source.Fits patch) (newline : Ending) :
    { source with newline := newline }.editOf? patch = source.editOf? patch :=
  editOf?_eq_of_take ⟨fits.start_le_stop, fits.stop_le_length, fits.sameLength⟩ fits rfl

theorem Source.FitAll.editsOf_newline
    {source : Source} {position : Nat} {patches : List (Patch Text)}
    (fitAll : source.FitAll position patches) (newline : Ending) :
    { source with newline := newline }.editsOf patches = source.editsOf patches := by
  induction patches generalizing position with
  | nil =>
      rfl
  | cons patch rest inductionHypothesis =>
      have sameEdit := editOf?_newline (fitAll.fits List.mem_cons_self) newline
      have sameRest := inductionHypothesis fitAll.tail
      unfold editsOf at sameRest ⊢
      rw [List.filterMap_cons, List.filterMap_cons, sameEdit, sameRest]

theorem scan_newline
    (options : Options) (passes : List String) (text : Text) (newline : Ending) :
    (findings passes (Source.ofText text)).filterMap
        (Finding.edit? options { Source.ofText text with newline := newline }) =
      scan options passes text := by
  rw [Finding.filterMap_edit?, scan_eq_editsOf]
  exact (fitAll_findings options passes text).editsOf_newline newline

/-! ## Formatting line by line -/

/-- Formatting a text is formatting its lines.  The regions that the search finds are
written anew and every other line is copied; cutting the formatted text gives these
lines back with the endings of the old ones, and the ending of gained lines is of no
account. -/
theorem format_lineWise
    (options : Options) (passes : List String) (text : Text) :
    format options passes text =
        Line.join
          (List.zipWith Line.mk (relaidLines options passes text) (Source.ofText text).endings) ∧
      Scanned (passes.contains Formatter.formatModelFields.name)
        (passes.contains Formatter.sortImports.name) options 0 (Source.ofText text).texts
        (findings passes (Source.ofText text)) (relaidLines options passes text) ∧
      (Source.ofText (format options passes text)).texts = relaidLines options passes text ∧
      (Source.ofText (format options passes text)).endings = (Source.ofText text).endings ∧
      (Source.ofText (format options passes text)).lines.length =
        (Source.ofText text).lines.length ∧
      (∀ index,
        (∀ finding ∈ findings passes (Source.ofText text), ¬ finding.Covers index) →
          (Source.ofText (format options passes text)).lines[index]? =
            (Source.ofText text).lines[index]?) ∧
      ∀ newline,
        (findings passes (Source.ofText text)).filterMap
            (Finding.edit? options { Source.ofText text with newline := newline }) =
          scan options passes text := by
  have sameEndings := endings_format options passes text
  have sameLength := congrArg List.length sameEndings
  rw [Source.endings, Source.endings, List.length_map, List.length_map] at sameLength
  refine ⟨format_eq_join options passes text, scanned_relaidLines options passes text,
    texts_format options passes text, sameEndings, sameLength, ?_,
    scan_newline options passes text⟩
  intro index outside
  rw [lines_format]
  exact relaid_getElem?_of_outside outside

end Tidy
