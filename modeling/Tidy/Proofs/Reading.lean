import Mathlib.Data.List.Flatten
import Tidy.Proofs.Rereading

/-!
# Where the parts of a declaration stand

A line that is read as a declaration is its name, its type and the parts behind the signs
of its tags, with nothing but blanks in between.  No part is dropped, since the tags
account for all characters of the line that are not blank.
-/

namespace Tidy

open Text

/-! ## Quoted strings -/

namespace Quoting

theorem after_cons
    (state : Quoting) (character : CodePoint) (rest : Text) :
    state.after (character :: rest) = (state.next character).after rest :=
  rfl

theorem after_append
    (state : Quoting) (front rest : Text) :
    state.after (front ++ rest) = (state.after front).after rest :=
  List.foldl_append

theorem Opened.after
    {state : Quoting}
    (opened : state.Opened) (text : Text) :
    (state.after text).Opened := by
  induction text generalizing state with
  | nil =>
      exact opened
  | cons character rest inductionHypothesis =>
      exact inductionHypothesis (opened.next character)

theorem opened_outside :
    Opened .outside :=
  trivial

theorem opened_after
    (text : Text) :
    (after .outside text).Opened :=
  opened_outside.after text

/-- The state after a character of no meaning: an escape has ended. -/
def settled : Quoting → Quoting
  | .outside => .outside
  | .inside quote => .inside quote
  | .escaped quote => .inside quote

@[simp]
theorem settled_settled
    (state : Quoting) :
    state.settled.settled = state.settled := by
  cases state <;> rfl

@[simp]
theorem isOpen_settled
    (state : Quoting) :
    state.settled.isOpen = state.isOpen := by
  cases state <;> rfl

theorem Opened.settled
    {state : Quoting}
    (opened : state.Opened) :
    state.settled.Opened := by
  cases state <;> exact opened

theorem isQuote_of_blank
    {character : CodePoint}
    (blank : isBlank character = true) :
    isQuote character = false := by
  apply Bool.eq_false_iff.mpr
  intro quotes
  rw [isBlank_of_isQuote quotes] at blank
  cases blank

theorem next_of_plain
    {state : Quoting} {character : CodePoint}
    (opened : state.Opened)
    (noQuote : isQuote character = false)
    (noEscape : character ≠ '\\') :
    state.next character = state.settled := by
  cases state with
  | outside =>
      rw [next, noQuote]
      rfl
  | inside quote =>
      have noEnd : ¬ character = quote := by
        intro ends
        rw [ends, show isQuote quote = true from opened] at noQuote
        cases noQuote
      rw [next, if_neg (mt beq_iff_eq.mp noEscape), if_neg (mt beq_iff_eq.mp noEnd)]
      rfl
  | escaped quote =>
      rfl

theorem next_of_blank
    {state : Quoting} {character : CodePoint}
    (opened : state.Opened)
    (blank : isBlank character = true) :
    state.next character = state.settled := by
  apply next_of_plain opened (isQuote_of_blank blank)
  intro escapes
  rw [escapes] at blank
  cases blank

/-- However wide a gap is, it ends an escape at most. -/
theorem after_blanks
    {state : Quoting} {gap : Text}
    (opened : state.Opened)
    (allBlank : ∀ character ∈ gap, isBlank character = true)
    (filled : gap ≠ []) :
    state.after gap = state.settled := by
  induction gap generalizing state with
  | nil =>
      exact absurd rfl filled
  | cons character rest inductionHypothesis =>
      obtain ⟨first, later⟩ := List.forall_mem_cons.mp allBlank
      rw [after_cons, next_of_blank opened first]
      by_cases isLast : rest = []
      · rw [isLast]
        rfl
      · exact (inductionHypothesis opened.settled later isLast).trans state.settled_settled

theorem after_of_append_blanks
    {state : Quoting} {front blanks : Text}
    (opened : state.Opened)
    (allBlank : ∀ character ∈ blanks, isBlank character = true)
    (closed : state.after (front ++ blanks) = .outside) :
    state.after front = .outside := by
  rw [after_append] at closed
  by_cases isEmpty : blanks = []
  · rw [isEmpty] at closed
    exact closed
  · rw [after_blanks (opened.after front) allBlank isEmpty] at closed
    apply eq_outside_of_not_isOpen
    rw [← isOpen_settled, closed]
    rfl

end Quoting

/-! ## Tags -/

namespace Mark

theorem map_character_ofText
    (state : Quoting) (text : Text) :
    (ofText state text).map character = text := by
  induction text generalizing state with
  | nil =>
      rfl
  | cons first rest inductionHypothesis =>
      rw [ofText, List.map_cons, inductionHypothesis]

end Mark

namespace Tags

def ofPart (part : Text) : Text :=
  Mark.tagSign :: collapse false (Mark.ofText .outside part)

theorem pieces_joined
    (marks : List Mark) :
    (pieces marks).1 ++ (pieces marks).2.flatMap (⟨Mark.tagSign, false⟩ :: ·) = marks := by
  induction marks with
  | nil =>
      rfl
  | cons mark rest inductionHypothesis =>
      by_cases starts : mark.startsTag = true
      · obtain ⟨character, isQuoted⟩ := mark
        obtain ⟨notQuoted, isSign⟩ := Bool.and_eq_true_iff.mp starts
        have isTagSign : character = Mark.tagSign := beq_iff_eq.mp isSign
        have isOutside : isQuoted = false := Bool.not_eq_true' _ |>.mp notQuoted
        rw [pieces_cons_of_startsTag starts, List.flatMap_cons, List.cons_append,
          inductionHypothesis, isTagSign, isOutside]
        rfl
      · rw [pieces_cons_of_not_startsTag starts, List.cons_append, inductionHypothesis]

theorem joined_of_pieces
    {text before : Text} {parts : List Text}
    (shape :
      pieces (Mark.ofText .outside text) =
        (Mark.ofText .outside before, parts.map (Mark.ofText .outside))) :
    text = before ++ parts.flatMap (Mark.tagSign :: ·) := by
  have whole := congrArg (List.map Mark.character) (pieces_joined (Mark.ofText .outside text))
  simp only [shape, Mark.map_character_ofText, List.map_append, List.map_flatMap,
    List.flatMap_map, List.map_cons] at whole
  exact whole.symm

theorem squash_collapse
    (gap : Bool) (marks : List Mark) :
    squash (collapse gap marks) = squash (marks.map Mark.character) := by
  induction marks generalizing gap with
  | nil =>
      rfl
  | cons mark rest inductionHypothesis =>
      rw [collapse, List.map_cons]
      by_cases isGap : mark.isGap = true
      · have blank := (Bool.and_eq_true_iff.mp isGap).2
        rw [if_pos isGap, inductionHypothesis, squash, squash,
          List.filter_cons_of_neg (by simp [blank])]
      · have kept (front : Text) :
            squash (front ++ mark.character :: collapse false rest) =
              squash front ++ squash (mark.character :: rest.map Mark.character) := by
          rw [squash_append, ← List.singleton_append, squash_append, inductionHypothesis,
            ← squash_append]
          rfl
        rw [if_neg isGap]
        cases gap with
        | true =>
            exact kept [' ']
        | false =>
            exact kept []

theorem squash_ofPart
    (part : Text) :
    squash (ofPart part) = squash (Mark.tagSign :: part) := by
  rw [ofPart, ← List.singleton_append, squash_append, squash_collapse,
    Mark.map_character_ofText, ← squash_append]
  rfl

theorem after_ofPart
    (part : Text) :
    Quoting.after .outside (ofPart part) = Quoting.after .outside part :=
  (collapse_again false .outside part fun _ => rfl).2.1

theorem squash_flatten_map_ofPart
    (parts : List Text) :
    squash (parts.map ofPart).flatten = squash (parts.flatMap (Mark.tagSign :: ·)) := by
  induction parts with
  | nil =>
      rfl
  | cons part rest inductionHypothesis =>
      rw [List.map_cons, List.flatten_cons, List.flatMap_cons, squash_append, squash_append,
        squash_ofPart, inductionHypothesis]

/-- Tags that still hold all the characters are all the tags. -/
theorem filter_eq_self_of_squash
    {keep : Text → Bool} {tags : List Text}
    (filled : ∀ tag ∈ tags, squash tag ≠ [])
    (complete :
      (squash tags.flatten).length ≤ (squash (tags.filter keep).flatten).length) :
    tags.filter keep = tags := by
  induction tags with
  | nil =>
      rfl
  | cons tag rest inductionHypothesis =>
      obtain ⟨tagFilled, restFilled⟩ := List.forall_mem_cons.mp filled
      rw [List.flatten_cons, squash_append, List.length_append] at complete
      by_cases kept : keep tag = true
      · rw [List.filter_cons_of_pos kept, List.flatten_cons, squash_append,
          List.length_append] at complete
        rw [List.filter_cons_of_pos kept,
          inductionHypothesis restFilled (Nat.le_of_add_le_add_left complete)]
      · rw [List.filter_cons_of_neg kept] at complete
        have fewer :
            (squash (rest.filter keep).flatten).length ≤ (squash rest.flatten).length :=
          (List.filter_sublist.flatten.filter _).length_le
        have weight := List.length_pos_iff.mpr tagFilled
        omega

/-- The parts between the signs of a text whose tags account for all its characters. -/
theorem exists_parts
    {text : Text}
    (complete : squash (scan text).flatten = squash text) :
    ∃ (blanks : Text) (parts : List Text),
      (∀ character ∈ blanks, isBlank character = true) ∧
        text = blanks ++ parts.flatMap (Mark.tagSign :: ·) ∧
        scan text = parts.map ofPart ∧
        (Quoting.after .outside text = .outside →
          ∀ part ∈ parts, Quoting.after .outside part = .outside) ∧
        (parts.Pairwise fun part _ => Quoting.after .outside part = .outside) ∧
        (∀ part ∈ parts, ∀ mark ∈ Mark.ofText .outside part, mark.startsTag = false) ∧
        ∀ tag ∈ parts.map ofPart, tag ≠ [Mark.tagSign] := by
  obtain ⟨before, parts, shape, unsigned, _, closes, _, closedIn⟩ := exists_pieces .outside text
  have joined := joined_of_pieces shape
  have scanned : scan text = (parts.map ofPart).filter (· != [Mark.tagSign]) := by
    rw [scan, shape, List.map_map]
    rfl
  have allSquashed :
      squash text = squash before ++ squash (parts.map ofPart).flatten := by
    rw [squash_flatten_map_ofPart, ← squash_append, ← joined]
  have noneDropped : (parts.map ofPart).filter (· != [Mark.tagSign]) = parts.map ofPart := by
    apply filter_eq_self_of_squash
    · intro tag member
      obtain ⟨part, _, rfl⟩ := List.mem_map.mp member
      rw [squash_ofPart]
      exact List.cons_ne_nil _ _
    · rw [← scanned, complete, allSquashed, List.length_append]
      exact Nat.le_add_left _ _
  rw [scanned, noneDropped, allSquashed] at complete
  have noneBefore : squash before = [] := List.self_eq_append_left.mp complete
  refine ⟨before, parts, ?_, joined, scanned.trans noneDropped,
    fun closed => (closes closed).2, closedIn, unsigned, ?_⟩
  · intro character member
    simpa using List.filter_eq_nil_iff.mp noneBefore character member
  · intro tag member
    simpa using List.filter_eq_self.mp noneDropped tag member

end Tags

/-! ## Declarations -/

/-- There are blanks between a word and what follows it. -/
theorem Text.wordGap_ne_nil
    {text : Text}
    (filled : text.afterWord ≠ []) :
    (text.dropWhile fun character => !isBlank character).takeWhile isBlank ≠ [] := by
  intro noGap
  have unchanged :
      text.afterWord = text.dropWhile fun character => !isBlank character := by
    have split := List.takeWhile_append_dropWhile (p := isBlank)
      (l := text.dropWhile fun character => !isBlank character)
    rw [noGap] at split
    exact split
  obtain ⟨first, others, shape⟩ := List.exists_cons_of_ne_nil filled
  have notBlank : isBlank first = false :=
    startsTight_stripLeft _ first (by rw [← afterWord, shape]; rfl)
  have blank := List.head?_dropWhile_not (fun character => !isBlank character) text
  rw [← unchanged, shape] at blank
  simp [notBlank] at blank

/-- A text is its first word, a gap, and what follows. -/
theorem Text.exists_firstWord_append
    (text : Text) :
    ∃ gap, text = text.firstWord ++ (gap ++ text.afterWord) ∧
      (∀ character ∈ gap, isBlank character = true) ∧
      (text.afterWord ≠ [] → gap ≠ []) := by
  refine ⟨(text.dropWhile fun character => !isBlank character).takeWhile isBlank, ?_,
    List.all_eq_true.mp List.all_takeWhile, wordGap_ne_nil⟩
  rw [firstWord, afterWord, stripLeft, List.takeWhile_append_dropWhile,
    List.takeWhile_append_dropWhile]

theorem Text.squash_eq_firstWord_append
    (text : Text) :
    squash text = squash text.firstWord ++ squash text.afterWord := by
  obtain ⟨gap, split, gapBlank, _⟩ := exists_firstWord_append text
  conv => lhs; rw [split]
  rw [squash_append, squash_append, squash_of_blank gapBlank, List.nil_append]

namespace Field

/-- Tags account for what follows name and type when all parts account for the line. -/
theorem squash_scan_tagPart
    {line : Text}
    (complete :
      (line.strip.firstWord ++ line.strip.afterWord.firstWord ++
        (Tags.scan (tagPart line)).flatten).squash = line.strip.squash) :
    squash (Tags.scan (tagPart line)).flatten = squash (tagPart line) := by
  rw [squash_eq_firstWord_append line.strip, squash_eq_firstWord_append line.strip.afterWord,
    squash_append, squash_append, List.append_assoc] at complete
  exact List.append_cancel_left (List.append_cancel_left complete)

def nameGap (line : Text) : Text :=
  (line.strip.dropWhile fun character => !isBlank character).takeWhile isBlank

/-- What follows the type, with the blanks in front of it. -/
def behindType (line : Text) : Text :=
  line.strip.afterWord.dropWhile fun character => !isBlank character

/-- How a line is made of the parts of a declaration and the blanks around them. -/
structure Cut (line : Text) (field : Field) (before between behind : Text)
    (parts : List Text) : Prop where
  line_eq :
    line =
      before ++ (field.name ++ (nameGap line ++ (field.columnType ++ (between ++
        (parts.flatMap (Mark.tagSign :: ·) ++ behind)))))
  before_blank : ∀ character ∈ before, isBlank character = true
  gap_blank : ∀ character ∈ nameGap line, isBlank character = true
  gap_ne_nil : nameGap line ≠ []
  between_blank : ∀ character ∈ between, isBlank character = true
  behind_blank : ∀ character ∈ behind, isBlank character = true
  tagPart_eq : tagPart line = parts.flatMap (Mark.tagSign :: ·)
  scan_eq : Tags.scan (tagPart line) = parts.map Tags.ofPart
  /-- Only the last part can leave a quoted string open. -/
  closedIn : parts.Pairwise fun part _ => Quoting.after .outside part = .outside
  closed : Quoting.after .outside (tagPart line) = .outside →
    ∀ part ∈ parts, Quoting.after .outside part = .outside

/-- The location tag is taken out of the tags, if there is one. -/
theorem ofTags_cases
    (locationPrefixes : List Text) (name columnType : Text) (tags : List Text) :
    let field := ofTags locationPrefixes name columnType tags
    field.location = [] ∧ field.tags = tags ∨
      ∃ front behind, tags = front ++ field.location :: behind ∧ field.tags = front ++ behind := by
  intro field
  cases found : tags.find? (startsWithAny locationPrefixes) with
  | none =>
      left
      have noLocation : tags.eraseP (startsWithAny locationPrefixes) = tags :=
        List.eraseP_of_forall_not (List.find?_eq_none.mp found)
      exact ⟨by simp [field, ofTags, found], noLocation⟩
  | some location =>
      right
      obtain ⟨isLocation, front, behind, split, others⟩ := List.find?_eq_some_iff_append.mp found
      refine ⟨front, behind, by simpa [field, ofTags, found] using split, ?_⟩
      have notIn : ∀ tag ∈ front, ¬ startsWithAny locationPrefixes tag = true := by
        intro tag member
        simpa using others tag member
      simp only [field, ofTags]
      rw [split, List.eraseP_append_right _ notIn, List.eraseP_cons_of_pos isLocation]

theorem writtenTags_perm
    (locationPrefixes : List Text) (name columnType : Text) {tags : List Text}
    (filled : ∀ tag ∈ tags, tag ≠ []) :
    (ofTags locationPrefixes name columnType tags).writtenTags.Perm tags := by
  unfold writtenTags
  rcases ofTags_cases locationPrefixes name columnType tags with
    ⟨noLocation, sameTags⟩ | ⟨front, behind, split, others⟩
  · rw [if_pos noLocation, sameTags]
  · have isLocation : (ofTags locationPrefixes name columnType tags).location ≠ [] := by
      apply filled
      conv => lhs; rw [split]
      exact List.mem_append_right front List.mem_cons_self
    rw [if_neg isLocation, others]
    conv => rhs; rw [split]
    exact List.perm_middle.symm

theorem strip_eq
    (line : Text) :
    line.strip = line.strip.firstWord ++ (nameGap line ++ line.strip.afterWord) := by
  unfold firstWord nameGap afterWord stripLeft
  rw [List.takeWhile_append_dropWhile, List.takeWhile_append_dropWhile]

theorem strip_eq_head_append
    (line : Text) :
    line.strip =
      line.strip.firstWord ++
        (nameGap line ++ (line.strip.afterWord.firstWord ++ behindType line)) := by
  have typeSplit :
      line.strip.afterWord = line.strip.afterWord.firstWord ++ behindType line :=
    (List.takeWhile_append_dropWhile).symm
  rw [← typeSplit]
  exact strip_eq line

theorem exists_cut
    {options : Options} {line : Text} {field : Field}
    (parsed : parse options line = .ok field) :
    ∃ before between behind parts, Cut line field before between behind parts := by
  obtain ⟨hasType, complete, rfl⟩ := parse_eq_ok parsed
  obtain ⟨before, behind, lineSplit, beforeBlank, behindBlank⟩ := exists_append_strip_append line
  obtain ⟨between, tagSplit, betweenBlank⟩ := exists_append_stripLeft (behindType line)
  have gapBlank : ∀ character ∈ nameGap line, isBlank character = true :=
    List.all_eq_true.mp List.all_takeWhile
  have stripSplit :
      line.strip =
        line.strip.firstWord ++ (nameGap line ++ (line.strip.afterWord.firstWord ++
          (between ++ tagPart line))) := by
    conv => lhs; rw [strip_eq_head_append, tagSplit]
    rfl
  obtain ⟨blanks, parts, allBlank, joined, scanned, closed, closedIn, _⟩ :=
    Tags.exists_parts (squash_scan_tagPart complete)
  have noBlanks : blanks = [] := by
    cases blanks with
    | nil =>
        rfl
    | cons first others =>
        have notBlank : isBlank first = false :=
          startsTight_stripLeft _ first (by rw [← afterWord, ← tagPart, joined]; rfl)
        rw [allBlank first List.mem_cons_self] at notBlank
        cases notBlank
  rw [noBlanks, List.nil_append] at joined
  refine ⟨before, between, behind, parts, ?_, beforeBlank, gapBlank, ?_, betweenBlank,
    behindBlank, joined, scanned, closedIn, closed⟩
  · conv => lhs; rw [lineSplit, stripSplit, joined]
    simp only [ofTags, List.append_assoc]
  · apply wordGap_ne_nil
    intro isEmpty
    rw [isEmpty] at hasType
    exact hasType rfl

end Field

/-! ## Blocks -/

namespace Block

theorem align_getElem?
    (options : Options) {lines : List Text} {index : Nat} {line : Text}
    (isLine : lines[index]? = some line) :
    (align options lines)[index]? =
      some ((ofLines options lines).renderEntry (Entry.ofLine options line)) := by
  rw [align_eq_map, List.getElem?_map, isLine]
  rfl

end Block

end Tidy
