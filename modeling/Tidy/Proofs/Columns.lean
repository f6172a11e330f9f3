import Tidy.Proofs.RoundTrip

/-!
# Columns

The declarations of a block start their names, types, location tags and other tags at the
same columns.  The widths of the columns are maxima over the declarations that count, so
padding reaches the next column, and trimming the line cuts into no part.
-/

namespace Tidy

namespace Text

theorem length_padRight
    {width : Nat} {text : Text}
    (fits : text.length ≤ width) :
    (text.padRight width).length = width := by
  rw [padRight, List.length_append, List.length_replicate]
  omega

/-- What stands behind a column is found there after trimming. -/
theorem isPrefix_drop_stripRight
    {front part : Text} {column : Nat}
    (isColumn : front.length = column)
    (filled : part ≠ [])
    (tight : EndsTight part) (behind : Text) :
    part <+: (stripRight (front ++ (part ++ behind))).drop column := by
  rw [← List.append_assoc, stripRight_append_of_endsTight (tight.append_of_ne_nil front filled),
    List.append_assoc, List.drop_left' isColumn]
  exact List.prefix_append part _

end Text

open Text

namespace Block

variable {options : Options} {lines : List Text} {line : Text} {field : Field}

/-! ## Widths -/

theorem length_le_widest
    {text : Text} {texts : List Text}
    (member : text ∈ texts) :
    text.length ≤ widest texts := by
  induction texts with
  | nil =>
      cases member
  | cons first rest inductionHypothesis =>
      have step : widest (first :: rest) = max first.length (widest rest) := rfl
      rw [step]
      rcases List.mem_cons.mp member with rfl | later
      · exact Nat.le_max_left _ _
      · exact Nat.le_trans (inductionHypothesis later) (Nat.le_max_right _ _)

theorem mem_fields
    (member : line ∈ lines)
    (parsed : Field.parse options line = .ok field) :
    field ∈ (lines.map (Entry.ofLine options)).filterMap Entry.field? := by
  rw [List.filterMap_map]
  refine List.mem_filterMap.mpr ⟨line, member, ?_⟩
  rw [Function.comp_apply, Entry.ofLine, parsed]
  rfl

/-- Names and types that are no annotation fit into their columns. -/
theorem length_le_ofLines
    (member : line ∈ lines)
    (parsed : Field.parse options line = .ok field)
    (declares : field.isAnnotation = false) :
    field.name.length ≤ (ofLines options lines).nameWidth ∧
      field.columnType.length ≤ (ofLines options lines).typeWidth := by
  have counts :
      field ∈ ((lines.map (Entry.ofLine options)).filterMap Entry.field?).filter
        fun field => !field.isAnnotation :=
    List.mem_filter.mpr ⟨mem_fields member parsed, by simp [declares]⟩
  exact ⟨length_le_widest (List.mem_map_of_mem counts),
    length_le_widest (List.mem_map_of_mem counts)⟩

theorem length_location_le_ofLines
    (member : line ∈ lines)
    (parsed : Field.parse options line = .ok field)
    (counts : field.location = [] ∨ startsWithAny options.widthPrefixes field.location = true) :
    field.location.length ≤ (ofLines options lines).tagWidth := by
  rcases counts with isEmpty | widens
  · rw [isEmpty]
    exact Nat.zero_le _
  · exact length_le_widest
      (List.mem_filter.mpr ⟨List.mem_map_of_mem (mem_fields member parsed), widens⟩)

/-! ## Lines -/

/-- Each part of the declaration stands at its column of the line, the other tags up to
the end of the line. -/
structure InColumns (options : Options) (block : Block) (field : Field) (line : Text) :
    Prop where
  name_at : field.name <+: line.drop options.fieldIndent.toNat
  type_at : field.columnType <+: line.drop (options.fieldIndent.toNat + block.nameWidth + 1)
  location_at :
    field.location ≠ [] →
      field.location <+:
        line.drop (options.fieldIndent.toNat + block.nameWidth + block.typeWidth + 2)
  tags_at :
    field.tags ≠ [] →
      field.location = [] ∨ startsWithAny options.widthPrefixes field.location = true →
        line.drop
            (options.fieldIndent.toNat + block.nameWidth + block.typeWidth + block.tagWidth + 3) =
          ([' '] : Text).intercalate field.tags

def typeFront (block : Block) (field : Field) : Text :=
  block.indent ++ (field.name.padRight block.nameWidth ++ ([' '] : Text))

def locationFront (block : Block) (field : Field) : Text :=
  block.typeFront field ++ (field.columnType.padRight block.typeWidth ++ ([' '] : Text))

def tagsFront (block : Block) (field : Field) : Text :=
  block.locationFront field ++ (field.location.padRight block.tagWidth ++ ([' '] : Text))

section Fronts

variable {block : Block}

theorem layOut_eq_tagsFront
    (block : Block) (field : Field) :
    block.layOut field = block.tagsFront field ++ ([' '] : Text).intercalate field.tags := by
  simp only [layOut, tagsFront, locationFront, typeFront, List.append_assoc]

theorem length_typeFront
    (nameFits : field.name.length ≤ block.nameWidth) :
    (block.typeFront field).length = block.indent.length + block.nameWidth + 1 := by
  simp only [typeFront, List.length_append, length_padRight nameFits, List.length_singleton,
    Nat.add_assoc]

theorem length_locationFront
    (nameFits : field.name.length ≤ block.nameWidth)
    (typeFits : field.columnType.length ≤ block.typeWidth) :
    (block.locationFront field).length =
      block.indent.length + block.nameWidth + block.typeWidth + 2 := by
  simp only [locationFront, List.length_append, length_typeFront nameFits,
    length_padRight typeFits, List.length_singleton]
  omega

theorem length_tagsFront
    (nameFits : field.name.length ≤ block.nameWidth)
    (typeFits : field.columnType.length ≤ block.typeWidth)
    (locationFits : field.location.length ≤ block.tagWidth) :
    (block.tagsFront field).length =
      block.indent.length + block.nameWidth + block.typeWidth + block.tagWidth + 3 := by
  simp only [tagsFront, List.length_append, length_locationFront nameFits typeFits,
    length_padRight locationFits, List.length_singleton]
  omega

end Fronts

theorem inColumns_renderEntry
    (member : line ∈ lines)
    (parsed : Field.parse options line = .ok field)
    (declares : field.isAnnotation = false) :
    InColumns options (ofLines options lines) field
      ((ofLines options lines).renderEntry (Entry.ofLine options line)) := by
  have spelled := Field.spelled_of_parse parsed
  obtain ⟨nameFits, typeFits⟩ := length_le_ofLines member parsed declares
  have isIndent : (ofLines options lines).indent.length = options.fieldIndent.toNat :=
    List.length_replicate
  have isType := length_typeFront nameFits
  have isLocation := length_locationFront nameFits typeFits
  rw [isIndent] at isType isLocation
  rw [Entry.ofLine, parsed, renderEntry]
  refine
    { name_at := ?_
      type_at := ?_
      location_at := ?_
      tags_at := ?_ }
  · rw [layOut_eq]
    exact isPrefix_drop_stripRight isIndent spelled.name_word.1 spelled.name_word.endsTight _
  · rw [layOut_eq_tagsFront, tagsFront, locationFront, padRight]
    simp only [List.append_assoc]
    exact isPrefix_drop_stripRight isType spelled.type_word.1 spelled.type_word.endsTight _
  · intro hasLocation
    rw [layOut_eq_tagsFront, tagsFront, padRight]
    simp only [List.append_assoc]
    exact isPrefix_drop_stripRight isLocation hasLocation
      (spelled.of_location hasLocation).endsTight _
  · intro hasTags counts
    have isTags :=
      length_tagsFront nameFits typeFits (length_location_le_ofLines member parsed counts)
    obtain ⟨tight, filled⟩ :=
      (Tags.Row.intercalate field.tags).endsTight fun _ => spelled.of_mem_tags
    rw [isIndent] at isTags
    rw [layOut_eq_tagsFront, stripRight_eq_self_of_endsTight
      (tight.append_of_ne_nil _ (filled hasTags)), List.drop_left' isTags]

/-- Each line is written anew in its own place, and the parts of a declaration stand at the
columns of its block. -/
theorem align_inColumns
    (options : Options) (lines : List Text) :
    (align options lines).length = lines.length ∧
      ∀ (index : Nat) (line : Text), lines[index]? = some line →
        (align options lines)[index]? =
            some ((ofLines options lines).renderEntry (Entry.ofLine options line)) ∧
          ∀ field, Field.parse options line = .ok field → field.isAnnotation = false →
            InColumns options (ofLines options lines) field
              ((ofLines options lines).renderEntry (Entry.ofLine options line)) := by
  refine ⟨length_align options lines, ?_⟩
  intro index line isLine
  refine ⟨?_, ?_⟩
  · rw [align_eq_map, List.getElem?_map, isLine]
    rfl
  · intro field parsed declares
    exact inColumns_renderEntry (List.mem_of_getElem? isLine) parsed declares

/-- The long relation widens no column, and neither does the annotation. -/
def columnLines : List Text :=
  ["id Int @id @map(\"_id\")",
   "email String? @unique @db.Text",
   "owner User @relation(fields: [ownerId]) @x",
   "@@index([id,  email])",
   "// a note  "]

theorem align_inColumns_unlocated :
    ∃ aligned, (align {} columnLines)[1]? = some aligned ∧
      ("email" : Text) <+: aligned.drop 2 ∧
      ("String?" : Text) <+: aligned.drop 8 ∧
      aligned.drop 28 = ("@unique @db.Text" : Text) := by
  obtain ⟨isWritten, ofDeclaration⟩ := (align_inColumns {} columnLines).2 1 _ rfl
  have columns :=
    ofDeclaration
      { name := "email"
        columnType := "String?"
        location := []
        tags := ["@unique", "@db.Text"] }
      (by decide +kernel) rfl
  have widths :
      (ofLines {} columnLines).nameWidth = 5 ∧ (ofLines {} columnLines).typeWidth = 7 ∧
        (ofLines {} columnLines).tagWidth = 11 := by
    decide +kernel
  obtain ⟨nameAt, typeAt, _, tagsAt⟩ := columns
  rw [widths.1] at typeAt
  rw [widths.1, widths.2.1, widths.2.2] at tagsAt
  exact ⟨_, isWritten, nameAt, typeAt, tagsAt (List.cons_ne_nil _ _) (Or.inl rfl)⟩

end Block

end Tidy
