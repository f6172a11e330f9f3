import Tidy.Field.Block
import Tidy.Proofs.Trim

/-!
# What alignment keeps

A line of a block is written anew from the parts that were read from it.  The
line keeps its characters that are not blank, gains only spaces, and ends in a
character that is not blank.
-/

namespace Tidy

/-! ## Characters of tags -/

namespace Mark

theorem character_mem_of_mem_ofText
    {state : Quoting} {text : Text} {mark : Mark}
    (member : mark ∈ ofText state text) :
    mark.character ∈ text := by
  induction text generalizing state with
  | nil =>
      cases member
  | cons character rest inductionHypothesis =>
      rcases List.mem_cons.mp member with equal | later
      · rw [equal]
        exact List.mem_cons_self
      · exact List.mem_cons_of_mem character (inductionHypothesis later)

end Mark

namespace Tags

theorem pieces_cons_of_startsTag
    {mark : Mark} (starts : mark.startsTag = true) (rest : List Mark) :
    pieces (mark :: rest) = ([], (pieces rest).1 :: (pieces rest).2) :=
  if_pos starts

theorem pieces_cons_of_not_startsTag
    {mark : Mark} (goesOn : ¬ mark.startsTag = true) (rest : List Mark) :
    pieces (mark :: rest) = (mark :: (pieces rest).1, (pieces rest).2) :=
  if_neg goesOn

theorem mem_of_mem_pieces
    (marks : List Mark) :
    (∀ mark ∈ (pieces marks).1, mark ∈ marks) ∧
      ∀ piece ∈ (pieces marks).2, ∀ mark ∈ piece, mark ∈ marks := by
  induction marks with
  | nil =>
      exact ⟨fun _ member => member, fun _ member => absurd member List.not_mem_nil⟩
  | cons first rest inductionHypothesis =>
      obtain ⟨inBefore, inAfter⟩ := inductionHypothesis
      have inLater {mark : Mark} (member : mark ∈ rest) : mark ∈ first :: rest :=
        List.mem_cons_of_mem first member
      by_cases starts : first.startsTag = true
      · rw [pieces_cons_of_startsTag starts]
        refine ⟨fun _ member => absurd member List.not_mem_nil, ?_⟩
        intro piece pieceMember mark member
        rcases List.mem_cons.mp pieceMember with equal | later
        · rw [equal] at member
          exact inLater (inBefore mark member)
        · exact inLater (inAfter piece later mark member)
      · rw [pieces_cons_of_not_startsTag starts]
        constructor
        · intro mark member
          rcases List.mem_cons.mp member with equal | later
          · rw [equal]
            exact List.mem_cons_self
          · exact inLater (inBefore mark later)
        · intro piece pieceMember mark member
          exact inLater (inAfter piece pieceMember mark member)

theorem mem_collapse
    {gap : Bool} {marks : List Mark} {character : CodePoint}
    (member : character ∈ collapse gap marks) :
    character = ' ' ∨ ∃ mark ∈ marks, mark.character = character := by
  induction marks generalizing gap with
  | nil =>
      cases member
  | cons first rest inductionHypothesis =>
      have fromRest {anyGap : Bool} (inRest : character ∈ collapse anyGap rest) :
          character = ' ' ∨ ∃ mark ∈ first :: rest, mark.character = character := by
        rcases inductionHypothesis inRest with isSpace | ⟨mark, markMember, equal⟩
        · exact Or.inl isSpace
        · exact Or.inr ⟨mark, List.mem_cons_of_mem first markMember, equal⟩
      rw [collapse] at member
      split at member
      · exact fromRest member
      · split at member
        · rcases List.mem_cons.mp member with isSpace | later
          · exact Or.inl isSpace
          · rcases List.mem_cons.mp later with isFirst | inRest
            · exact Or.inr ⟨first, List.mem_cons_self, isFirst.symm⟩
            · exact fromRest inRest
        · rcases List.mem_cons.mp member with isFirst | inRest
          · exact Or.inr ⟨first, List.mem_cons_self, isFirst.symm⟩
          · exact fromRest inRest

/-- A tag is made of its sign, spaces, and characters of the text it is cut from. -/
theorem mem_of_mem_scan
    {remainder tag : Text} {character : CodePoint}
    (tagMember : tag ∈ scan remainder)
    (member : character ∈ tag) :
    character = Mark.tagSign ∨ character = ' ' ∨ character ∈ remainder := by
  obtain ⟨piece, pieceMember, rfl⟩ := List.mem_map.mp (List.mem_filter.mp tagMember).1
  rcases List.mem_cons.mp member with isSign | inPiece
  · exact Or.inl isSign
  · rcases mem_collapse inPiece with isSpace | ⟨mark, markMember, rfl⟩
    · exact Or.inr (Or.inl isSpace)
    · have inMarks := (mem_of_mem_pieces _).2 piece pieceMember mark markMember
      exact Or.inr (Or.inr (Mark.character_mem_of_mem_ofText inMarks))

end Tags

/-! ## Fields -/

namespace Field

/-- The location tag is taken from among the tags. -/
theorem location_append_tags_perm
    (locationPrefixes : List Text) (name columnType : Text) (tags : List Text) :
    let field := ofTags locationPrefixes name columnType tags
    (field.location ++ field.tags.flatten).Perm tags.flatten := by
  induction tags with
  | nil =>
      exact List.Perm.refl []
  | cons tag rest inductionHypothesis =>
      simp only [ofTags] at inductionHypothesis ⊢
      by_cases isLocation : Text.startsWithAny locationPrefixes tag = true
      · rw [List.find?_cons_of_pos isLocation, List.eraseP_cons_of_pos isLocation]
        exact List.Perm.refl _
      · rw [List.find?_cons_of_neg isLocation, List.eraseP_cons_of_neg isLocation,
          List.flatten_cons, List.flatten_cons]
        exact (List.perm_append_comm_assoc ..).trans (inductionHypothesis.append_left tag)

/-- The parts of a line that is read. -/
theorem parse_eq_ok
    {options : Options} {line : Text} {field : Field}
    (parsed : parse options line = .ok field) :
    let trimmed := line.strip
    let tags := Tags.scan trimmed.afterWord.afterWord
    trimmed.afterWord.firstWord ≠ [] ∧
      (trimmed.firstWord ++ trimmed.afterWord.firstWord ++ tags.flatten).squash =
        trimmed.squash ∧
      field =
        ofTags options.locationPrefixes trimmed.firstWord trimmed.afterWord.firstWord tags := by
  simp only [parse] at parsed
  split at parsed
  · cases parsed
  · rename_i hasType
    split at parsed
    · cases parsed
    · rename_i complete
      simp only [bne_iff_ne, ne_eq, Decidable.not_not] at complete
      cases parsed
      exact ⟨by simpa using hasType, complete, rfl⟩

/-- A line that is read accounts for all its characters that are not blank. -/
theorem filter_of_parse
    {keep : CodePoint → Bool} (refuses : Text.RefusesBlanks keep)
    {options : Options} {line : Text} {field : Field}
    (parsed : parse options line = .ok field) :
    ((field.name ++ field.columnType ++ field.location ++ field.tags.flatten).filter keep).Perm
      (line.filter keep) := by
  obtain ⟨_, complete, rfl⟩ := parse_eq_ok parsed
  have moved := location_append_tags_perm options.locationPrefixes
    line.strip.firstWord line.strip.afterWord.firstWord
    (Tags.scan line.strip.afterWord.afterWord)
  refine List.Perm.trans ?_ (List.Perm.of_eq (Text.filter_strip refuses line))
  rw [← Text.filter_squash refuses line.strip, ← complete, Text.filter_squash refuses]
  refine List.Perm.filter keep ?_
  rw [List.append_assoc]
  exact moved.append_left _

/-- The parts of a line that is read hold signs, spaces and characters of the line. -/
theorem mem_of_parse
    {options : Options} {line : Text} {field : Field}
    (parsed : parse options line = .ok field)
    {character : CodePoint}
    (member :
      character ∈ field.name ++ field.columnType ++ field.location ++ field.tags.flatten) :
    character = Mark.tagSign ∨ character = ' ' ∨ character ∈ line := by
  obtain ⟨_, _, rfl⟩ := parse_eq_ok parsed
  have moved := location_append_tags_perm options.locationPrefixes
    line.strip.firstWord line.strip.afterWord.firstWord
    (Tags.scan line.strip.afterWord.afterWord)
  have inLine {part : Text} (sublist : part.Sublist line.strip)
      (inPart : character ∈ part) : character ∈ line :=
    (Text.strip_sublist line).subset (sublist.subset inPart)
  rw [List.append_assoc, List.mem_append, moved.mem_iff, List.mem_append] at member
  rcases member with (inName | inType) | inTags
  · exact Or.inr (Or.inr (inLine (List.takeWhile_sublist _) inName))
  · exact Or.inr (Or.inr (inLine
      ((List.takeWhile_sublist _).trans (Text.afterWord_sublist _)) inType))
  · obtain ⟨tag, tagMember, inTag⟩ := List.mem_flatten.mp inTags
    rcases Tags.mem_of_mem_scan tagMember inTag with isSign | isSpace | inRemainder
    · exact Or.inl isSign
    · exact Or.inr (Or.inl isSpace)
    · exact Or.inr (Or.inr (inLine
        ((Text.afterWord_sublist _).trans (Text.afterWord_sublist _)) inRemainder))

end Field

/-! ## Blocks -/

namespace Block

variable {options : Options}

@[simp]
theorem length_align
    (options : Options) (lines : List Text) :
    (align options lines).length = lines.length := by
  simp [align, render, ofLines, ofEntries]

/-- Each line is written anew in its own place. -/
theorem align_eq_map
    (options : Options) (lines : List Text) :
    align options lines =
      lines.map fun line => (ofLines options lines).renderEntry (Entry.ofLine options line) := by
  simp only [align, render, ofLines, ofEntries, List.map_map]
  rfl

theorem endsTight_renderEntry
    (block : Block) (entry : Entry) :
    Text.EndsTight (block.renderEntry entry) := by
  cases entry with
  | declared field =>
      exact Text.endsTight_stripRight _
  | verbatim line =>
      exact Text.endsTight_stripRight _

/-- Only spaces stand between the parts of a field. -/
theorem filter_layOut
    {keep : CodePoint → Bool} (noSpace : keep ' ' = false)
    {block : Block} (spaces : ∀ character ∈ block.indent, character = ' ')
    (field : Field) :
    (block.layOut field).filter keep =
      (field.name ++ field.columnType ++ field.location ++ field.tags.flatten).filter keep := by
  have gap : ([' '] : Text).filter keep = [] := Text.filter_of_space noSpace (by simp)
  simp only [layOut, List.filter_append, Text.filter_of_space noSpace spaces, gap,
    Text.filter_padRight noSpace, Text.filter_intercalate_space noSpace,
    List.nil_append, List.append_nil]

theorem mem_layOut
    {block : Block} (spaces : ∀ character ∈ block.indent, character = ' ')
    {field : Field} {character : CodePoint}
    (member : character ∈ block.layOut field) :
    character = ' ' ∨
      character ∈ field.name ++ field.columnType ++ field.location ++ field.tags.flatten := by
  by_cases isSpace : character = ' '
  · exact Or.inl isSpace
  · have kept : character ∈ (block.layOut field).filter (· != CodePoint.scalar ' ') :=
      List.mem_filter.mpr ⟨member, by simpa using isSpace⟩
    rw [filter_layOut (by rfl) spaces] at kept
    exact Or.inr (List.mem_filter.mp kept).1

theorem indent_ofLines
    (options : Options) (lines : List Text) :
    ∀ character ∈ (ofLines options lines).indent, character = ' ' :=
  fun _ => List.eq_of_mem_replicate

/-- A line written anew keeps its characters that are not blank. -/
theorem filter_renderEntry
    {keep : CodePoint → Bool} (refuses : Text.RefusesBlanks keep)
    {block : Block} (spaces : ∀ character ∈ block.indent, character = ' ')
    (options : Options) (line : Text) :
    ((block.renderEntry (Entry.ofLine options line)).filter keep).Perm (line.filter keep) := by
  unfold Entry.ofLine
  cases parsed : Field.parse options line with
  | error malformed =>
      exact List.Perm.of_eq (Text.filter_stripRight refuses line)
  | ok field =>
      have laidOut := filter_layOut (refuses ' ' rfl) spaces field
      rw [renderEntry, Text.filter_stripRight refuses, laidOut]
      exact Field.filter_of_parse refuses parsed

/-- A line written anew holds signs, spaces and characters of the line. -/
theorem mem_renderEntry
    {block : Block} (spaces : ∀ character ∈ block.indent, character = ' ')
    {options : Options} {line : Text} {character : CodePoint}
    (member : character ∈ block.renderEntry (Entry.ofLine options line)) :
    character = Mark.tagSign ∨ character = ' ' ∨ character ∈ line := by
  unfold Entry.ofLine at member
  cases parsed : Field.parse options line with
  | error malformed =>
      rw [parsed] at member
      exact Or.inr (Or.inr ((Text.stripRight_sublist line).subset member))
  | ok field =>
      rw [parsed] at member
      rcases mem_layOut spaces ((Text.stripRight_sublist _).subset member) with isSpace | inParts
      · exact Or.inr (Or.inl isSpace)
      · exact Field.mem_of_parse parsed inParts

/-- Aligned lines end in characters that are not blank, and no line feed gets in. -/
theorem align_clean
    {lines : List Text}
    (noFeed : ∀ line ∈ lines, CodePoint.scalar '\n' ∉ line) :
    ∀ line ∈ align options lines, CodePoint.scalar '\n' ∉ line ∧ Text.EndsTight line := by
  intro written member
  rw [align_eq_map] at member
  obtain ⟨line, lineMember, rfl⟩ := List.mem_map.mp member
  refine ⟨?_, endsTight_renderEntry _ _⟩
  intro isFeed
  rcases mem_renderEntry (indent_ofLines options lines) isFeed with isSign | isSpace | inLine
  · exact absurd isSign (by decide)
  · exact absurd isSpace (by decide)
  · exact noFeed line lineMember inLine

end Block

end Tidy
