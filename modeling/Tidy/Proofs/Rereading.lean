import Tidy.Proofs.Tagging

/-!
# Declarations that are read again

A line that is written from a declaration is read as the same declaration, and a line
that is none stays none.  The columns of a block are therefore measured anew as they
were, and aligning a block twice changes nothing, unless a line leaves a quoted string
open.
-/

namespace Tidy

open Text

/-! ## Words -/

namespace Text

def IsWord (text : Text) : Prop :=
  text ≠ [] ∧ ∀ character ∈ text, isBlank character = false

theorem IsWord.endsTight
    {word : Text}
    (isWord : IsWord word) :
    EndsTight word :=
  fun character isLast => isWord.2 character (List.mem_of_getLast? isLast)

theorem IsWord.startsTight_append
    {word : Text}
    (isWord : IsWord word) (rest : Text) :
    StartsTight (word ++ rest) := by
  obtain ⟨first, others, rfl⟩ := List.exists_cons_of_ne_nil isWord.1
  intro character isFirst
  cases isFirst
  exact isWord.2 first List.mem_cons_self

theorem isWord_firstWord
    {text : Text}
    (tight : StartsTight text)
    (filled : text ≠ []) :
    IsWord (firstWord text) := by
  obtain ⟨first, others, rfl⟩ := List.exists_cons_of_ne_nil filled
  have notBlank : isBlank first = false := tight first rfl
  constructor
  · simp [firstWord, notBlank]
  · intro character member
    simpa using List.all_eq_true.mp List.all_takeWhile character member

theorem IsWord.read
    {word rest : Text}
    (isWord : IsWord word)
    (bounded : ∀ character, rest.head? = some character → isBlank character = true) :
    firstWord (word ++ rest) = word ∧ afterWord (word ++ rest) = stripLeft rest := by
  have allKept : ∀ character ∈ word, (!isBlank character) = true := by
    intro character member
    rw [isWord.2 character member]
    rfl
  unfold firstWord afterWord
  rw [List.takeWhile_append_of_pos allKept, List.dropWhile_append_of_pos allKept]
  cases rest with
  | nil =>
      exact ⟨List.append_nil word, rfl⟩
  | cons first others =>
      have blank : isBlank first = true := bounded first rfl
      have stops : (!isBlank first) = false := by rw [blank]; rfl
      rw [List.takeWhile_cons, List.dropWhile_cons, stops]
      exact ⟨List.append_nil word, rfl⟩

end Text

/-! ## Fields -/

namespace Field

def tagPart (line : Text) : Text :=
  line.strip.afterWord.afterWord

/-- Whether a quoted string of the tags is not closed at the end of the line. -/
def leavesQuoteOpen (line : Text) : Bool :=
  (Quoting.after .outside (tagPart line)).isOpen

def writtenTags (field : Field) : List Text :=
  if field.location = [] then field.tags else field.location :: field.tags

theorem mem_of_mem_writtenTags
    {locationPrefixes : List Text} {name columnType tag : Text} {tags : List Text}
    (member : tag ∈ (ofTags locationPrefixes name columnType tags).writtenTags) :
    tag ∈ tags := by
  unfold writtenTags at member
  split at member
  · exact List.mem_of_mem_eraseP member
  · rename_i notEmpty
    rcases List.mem_cons.mp member with rfl | other
    · cases found : tags.find? (startsWithAny locationPrefixes) with
      | none =>
          exact absurd (by simp [ofTags, found]) notEmpty
      | some location =>
          simpa [ofTags, found] using List.mem_of_find?_eq_some found
    · exact List.mem_of_mem_eraseP other

/-- Moving the location tag to the front makes no difference to what is read. -/
theorem ofTags_writtenTags
    (locationPrefixes : List Text) (name columnType : Text) {tags : List Text}
    (filled : ∀ tag ∈ tags, tag ≠ []) :
    ofTags locationPrefixes name columnType
        (ofTags locationPrefixes name columnType tags).writtenTags =
      ofTags locationPrefixes name columnType tags := by
  cases found : tags.find? (startsWithAny locationPrefixes) with
  | none =>
      have noLocation : tags.eraseP (startsWithAny locationPrefixes) = tags :=
        List.eraseP_of_forall_not (List.find?_eq_none.mp found)
      have unmoved : (ofTags locationPrefixes name columnType tags).writtenTags = tags := by
        simp [writtenTags, ofTags, found, noLocation]
      rw [unmoved]
  | some location =>
      have isLocation := List.find?_some found
      have notEmpty : location ≠ [] := filled location (List.mem_of_find?_eq_some found)
      have moved :
          (ofTags locationPrefixes name columnType tags).writtenTags =
            location :: tags.eraseP (startsWithAny locationPrefixes) := by
        simp [writtenTags, ofTags, found, notEmpty]
      rw [moved]
      simp [ofTags, found, isLocation]

/-- Name, type and what follows them are read whatever blanks stand between them. -/
theorem read_spaced
    {before name gap columnType tail : Text}
    (beforeBlank : ∀ character ∈ before, isBlank character = true)
    (nameWord : IsWord name)
    (gapBlank : ∀ character ∈ gap, isBlank character = true)
    (separated : gap ≠ [])
    (typeWord : IsWord columnType)
    (bounded : ∀ character, tail.head? = some character → isBlank character = true) :
    let trimmed := strip (before ++ (name ++ (gap ++ (columnType ++ tail))))
    trimmed = name ++ (gap ++ (columnType ++ stripRight tail)) ∧
      trimmed.firstWord = name ∧
      trimmed.afterWord.firstWord = columnType ∧
      trimmed.afterWord.afterWord = stripLeft (stripRight tail) := by
  intro line
  have typeStarts : StartsTight (columnType ++ stripRight tail) :=
    typeWord.startsTight_append (stripRight tail)
  have trimmed : line = name ++ (gap ++ (columnType ++ stripRight tail)) := by
    have tight : EndsTight (name ++ gap ++ columnType) :=
      typeWord.endsTight.append_of_ne_nil (name ++ gap) typeWord.1
    have trimmedTail := stripRight_append_of_endsTight tight tail
    simp only [List.append_assoc] at trimmedTail
    simp only [line]
    rw [strip, stripLeft_blanks_append beforeBlank (nameWord.startsTight_append _), trimmedTail]
  have gapBounds :
      ∀ character, (gap ++ (columnType ++ stripRight tail)).head? = some character →
        isBlank character = true := by
    obtain ⟨first, others, rfl⟩ := List.exists_cons_of_ne_nil separated
    intro character isFirst
    cases isFirst
    exact gapBlank first List.mem_cons_self
  have tailBounds :
      ∀ character, (stripRight tail).head? = some character → isBlank character = true :=
    fun character isFirst => bounded character (head?_of_head?_stripRight isFirst)
  obtain ⟨readName, afterName⟩ := nameWord.read gapBounds
  obtain ⟨readType, afterType⟩ := typeWord.read tailBounds
  rw [stripLeft_blanks_append gapBlank typeStarts] at afterName
  rw [trimmed, readName, afterName, readType, afterType]
  exact ⟨rfl, rfl, rfl, rfl⟩

theorem parse_spaced
    (options : Options) {before name gap columnType tail : Text} {tags : List Text}
    (beforeBlank : ∀ character ∈ before, isBlank character = true)
    (nameWord : IsWord name)
    (gapBlank : ∀ character ∈ gap, isBlank character = true)
    (separated : gap ≠ [])
    (typeWord : IsWord columnType)
    (bounded : ∀ character, tail.head? = some character → isBlank character = true)
    (spaced : Tags.Spaced tags tail) :
    parse options (before ++ (name ++ (gap ++ (columnType ++ tail)))) =
      .ok (ofTags options.locationPrefixes name columnType tags) := by
  obtain ⟨trimmed, readName, readType, afterType⟩ :=
    read_spaced beforeBlank nameWord gapBlank separated typeWord bounded
  rw [trimmed] at readName readType afterType
  have scanned : Tags.scan (stripLeft (stripRight tail)) = tags :=
    spaced.stripRight.stripLeft.scan_eq
  have notEmpty : columnType.isEmpty = false := List.isEmpty_eq_false_iff.mpr typeWord.1
  have complete :
      (name ++ columnType ++ tags.flatten).squash =
        (name ++ (gap ++ (columnType ++ stripRight tail))).squash := by
    simp only [squash_append, squash_of_blank gapBlank, spaced.stripRight.squash_eq,
      List.nil_append, List.append_assoc]
  unfold parse
  simp only [trimmed, readName, readType, afterType, scanned, notEmpty, complete]
  simp

theorem isWord_of_parse
    {options : Options} {line : Text} {field : Field}
    (parsed : parse options line = .ok field) :
    IsWord field.name ∧ IsWord field.columnType := by
  obtain ⟨hasType, _, rfl⟩ := parse_eq_ok parsed
  have filledType : line.strip.afterWord ≠ [] := by
    intro isEmpty
    rw [isEmpty] at hasType
    exact hasType rfl
  have filled : line.strip ≠ [] := by
    intro isEmpty
    rw [isEmpty] at filledType
    exact filledType rfl
  exact ⟨isWord_firstWord (startsTight_strip line) filled,
    isWord_firstWord (startsTight_stripLeft _) filledType⟩

theorem written_of_parse
    {options : Options} {line : Text} {field : Field}
    (parsed : parse options line = .ok field)
    (closed : leavesQuoteOpen line = false) :
    IsWord field.name ∧ IsWord field.columnType ∧
      (∀ tag ∈ field.writtenTags, Tags.Written tag) ∧
      ofTags options.locationPrefixes field.name field.columnType field.writtenTags = field := by
  obtain ⟨nameWord, typeWord⟩ := isWord_of_parse parsed
  obtain ⟨_, _, rfl⟩ := parse_eq_ok parsed
  have outside : Quoting.after .outside line.strip.afterWord.afterWord = .outside :=
    Quoting.eq_outside_of_not_isOpen closed
  have written :
      ∀ tag ∈ Tags.scan line.strip.afterWord.afterWord, Tags.Written tag :=
    fun tag member => Tags.written_of_mem_scan outside member
  refine ⟨nameWord, typeWord, ?_, ?_⟩
  · intro tag member
    exact written tag (mem_of_mem_writtenTags member)
  · exact ofTags_writtenTags _ _ _ fun tag member => (written tag member).ne_nil

end Field

/-! ## Blocks -/

namespace Block

def layOutTags (block : Block) (field : Field) : Text :=
  List.replicate (block.typeWidth - field.columnType.length) (CodePoint.scalar ' ') ++
    (([' '] : Text) ++ (field.location ++
      (List.replicate (block.tagWidth - field.location.length) (CodePoint.scalar ' ') ++
      (([' '] : Text) ++ ([' '] : Text).intercalate field.tags))))

theorem layOut_eq
    (block : Block) (field : Field) :
    block.layOut field =
      block.indent ++ (field.name ++
        ((List.replicate (block.nameWidth - field.name.length) (CodePoint.scalar ' ') ++
            ([' '] : Text)) ++
          (field.columnType ++ block.layOutTags field))) := by
  simp only [layOut, layOutTags, padRight, List.append_assoc]

theorem isBlank_of_head?_layOutTags
    {block : Block} {field : Field} {character : CodePoint}
    (isFirst : (block.layOutTags field).head? = some character) :
    isBlank character = true := by
  unfold layOutTags at isFirst
  cases gap : block.typeWidth - field.columnType.length with
  | zero =>
      rw [gap] at isFirst
      cases isFirst
      rfl
  | succ width =>
      rw [gap] at isFirst
      cases isFirst
      rfl

theorem spaced_layOutTags
    (block : Block) {field : Field}
    (written : ∀ tag ∈ field.writtenTags, Tags.Written tag) :
    Tags.Spaced field.writtenTags (block.layOutTags field) := by
  have spaces := isBlank_of_mem_replicate
  unfold Field.writtenTags at written ⊢
  unfold layOutTags
  by_cases noLocation : field.location = []
  · rw [if_pos noLocation] at written ⊢
    rw [noLocation, List.nil_append]
    exact (((Tags.Spaced.intercalate written).blanks_append (spaces _)).blanks_append
      (spaces 1)).blanks_append (spaces _)
  · rw [if_neg noLocation] at written ⊢
    obtain ⟨location, others⟩ := List.forall_mem_cons.mp written
    exact (Tags.Spaced.tag (spaces 1) location
      ((Tags.Spaced.intercalate others).blanks_append (spaces _))).blanks_append (spaces _)

theorem isBlank_of_mem_indent
    {block : Block}
    (spaces : ∀ character ∈ block.indent, character = ' ') :
    ∀ character ∈ block.indent, isBlank character = true := by
  intro character member
  rw [spaces character member]
  rfl

/-- What is written for a line that is read is read in the same way. -/
theorem parse_layOut
    {options : Options} {block : Block} {line : Text} {field : Field}
    (spaces : ∀ character ∈ block.indent, character = ' ')
    (parsed : Field.parse options line = .ok field)
    (closed : Field.leavesQuoteOpen line = false) :
    Field.parse options (block.layOut field) = .ok field := by
  obtain ⟨nameWord, typeWord, written, readAgain⟩ := Field.written_of_parse parsed closed
  have indentBlank := isBlank_of_mem_indent spaces
  have gapBlank :
      ∀ character ∈
          List.replicate (block.nameWidth - field.name.length) (CodePoint.scalar ' ') ++
            ([' '] : Text),
        isBlank character = true :=
    List.forall_mem_append.mpr ⟨isBlank_of_mem_replicate _, isBlank_of_mem_replicate 1⟩
  rw [layOut_eq, Field.parse_spaced options indentBlank nameWord gapBlank (by simp) typeWord
    (fun _ => isBlank_of_head?_layOutTags) (block.spaced_layOutTags written), readAgain]

end Block

/-! ## Aligning twice -/

namespace Field

theorem parse_stripRight
    (options : Options) (line : Text) :
    parse options line.stripRight = parse options line := by
  simp only [parse, strip_stripRight]

end Field

namespace Entry

def trimmed : Entry → Entry
  | .declared field => .declared field
  | .verbatim line => .verbatim line.stripRight

@[simp]
theorem field?_trimmed
    (entry : Entry) :
    entry.trimmed.field? = entry.field? := by
  cases entry with
  | declared field =>
      rfl
  | verbatim line =>
      rfl

end Entry

namespace Block

/-- No declaration among the lines ends within a quoted string. -/
def QuotesClosed (options : Options) (lines : List Text) : Prop :=
  ∀ line ∈ lines, ∀ field, Field.parse options line = .ok field →
    Field.leavesQuoteOpen line = false

@[simp]
theorem renderEntry_trimmed
    (block : Block) (entry : Entry) :
    block.renderEntry entry.trimmed = block.renderEntry entry := by
  cases entry with
  | declared field =>
      rfl
  | verbatim line =>
      exact stripRight_stripRight line

/-- Only the fields among the entries count for the columns. -/
theorem ofEntries_map_trimmed
    (options : Options) (entries : List Entry) :
    ofEntries options (entries.map Entry.trimmed) =
      { ofEntries options entries with entries := entries.map Entry.trimmed } := by
  have sameFields :
      (entries.map Entry.trimmed).filterMap Entry.field? = entries.filterMap Entry.field? := by
    rw [List.filterMap_map]
    exact congrArg (entries.filterMap ·) (funext Entry.field?_trimmed)
  simp only [ofEntries, sameFields]

theorem ofLine_renderEntry
    {options : Options} {block : Block} {line : Text}
    (spaces : ∀ character ∈ block.indent, character = ' ')
    (closed :
      ∀ field, Field.parse options line = .ok field → Field.leavesQuoteOpen line = false) :
    Entry.ofLine options (block.renderEntry (Entry.ofLine options line)) =
      (Entry.ofLine options line).trimmed := by
  cases parsed : Field.parse options line with
  | error malformed =>
      have isVerbatim : Entry.ofLine options line = .verbatim line := by
        rw [Entry.ofLine, parsed]
      rw [isVerbatim, renderEntry, Entry.ofLine, Field.parse_stripRight, parsed]
      rfl
  | ok field =>
      have isDeclared : Entry.ofLine options line = .declared field := by
        rw [Entry.ofLine, parsed]
      rw [isDeclared, renderEntry, Entry.ofLine, Field.parse_stripRight,
        parse_layOut spaces parsed (closed field parsed)]
      rfl

theorem align_align
    {options : Options} {lines : List Text}
    (closed : QuotesClosed options lines) :
    align options (align options lines) = align options lines := by
  have readAgain :
      (align options lines).map (Entry.ofLine options) =
        (lines.map (Entry.ofLine options)).map Entry.trimmed := by
    rw [align_eq_map, List.map_map, List.map_map]
    apply List.map_congr_left
    intro line member
    exact ofLine_renderEntry (indent_ofLines options lines) (closed line member)
  have rewritten (entries : List Entry) :
      (ofEntries options (entries.map Entry.trimmed)).render =
        (ofEntries options entries).render := by
    rw [ofEntries_map_trimmed]
    simp only [render, List.map_map]
    apply List.map_congr_left
    intro entry _
    exact renderEntry_trimmed (ofEntries options entries) entry
  calc
    align options (align options lines) =
        (ofEntries options ((lines.map (Entry.ofLine options)).map Entry.trimmed)).render := by
      rw [← readAgain]
      rfl
    _ = align options lines := rewritten _

theorem head?_renderEntry
    {options : Options} {block : Block} {line : Text} {character : CodePoint}
    (indented : block.indent.head? = some (CodePoint.scalar ' '))
    (isFirst : (block.renderEntry (Entry.ofLine options line)).head? = some character) :
    character = ' ' ∨ line.head? = some character := by
  unfold Entry.ofLine at isFirst
  cases parsed : Field.parse options line with
  | error malformed =>
      rw [parsed] at isFirst
      exact Or.inr (head?_of_head?_stripRight isFirst)
  | ok field =>
      rw [parsed] at isFirst
      have first := head?_of_head?_stripRight isFirst
      rw [layOut_eq, List.head?_append, indented] at first
      cases first
      exact Or.inl rfl

end Block

end Tidy
