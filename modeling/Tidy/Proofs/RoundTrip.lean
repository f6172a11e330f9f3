import Tidy.Proofs.Grammar
import Tidy.Proofs.Quotation

/-!
# Declarations written and read

What is written for a declaration is read as the same declaration, whatever quotes, escapes
and comments its tags hold, with one exception.  Only the last tag of a line can leave a
quoted string open.  When that is the location tag, it is written in front of the other
tags, and these become a part of its string.
-/

namespace Tidy

open Text

/-! ## Tags as they are read -/

namespace Tags

theorem getLast?_collapse
    (gap : Bool) (state : Quoting) {part : Text} {last : CodePoint}
    (isLast : part.getLast? = some last)
    (notBlank : isBlank last = false) :
    (collapse gap (Mark.ofText state part)).getLast? = some last := by
  induction part generalizing gap state with
  | nil =>
      cases isLast
  | cons character rest inductionHypothesis =>
      rw [Mark.ofText, collapse]
      cases rest with
      | nil =>
          have isCharacter : character = last := by simpa using isLast
          have kept : ¬ Mark.isGap ⟨character, state.isOpen⟩ = true := by
            simp [Mark.isGap, isCharacter, notBlank]
          rw [if_neg kept, isCharacter]
          cases gap <;> rfl
      | cons next others =>
          have later (anyGap : Bool) :=
            inductionHypothesis anyGap (state.next character) isLast
          have behind (front : Text) :
              (front ++ collapse false
                (Mark.ofText (state.next character) (next :: others))).getLast? = some last := by
            rw [List.getLast?_append, later false]
            rfl
          split
          · exact later true
          · cases gap with
            | true =>
                exact behind [' ', character]
            | false =>
                exact behind [character]

/-- In an open string nothing is collapsed. -/
theorem collapse_append_of_isOpen
    (gap : Bool) (state : Quoting) (front : Text) {rest : Text}
    (gapOutside : gap = true → state = .outside)
    (isOpen : (state.after front).isOpen = true) :
    collapse gap (Mark.ofText state (front ++ rest)) =
      collapse gap (Mark.ofText state front) ++
        collapse false (Mark.ofText (state.after front) rest) := by
  induction front generalizing gap state with
  | nil =>
      cases gap with
      | false =>
          rfl
      | true =>
          rw [gapOutside rfl] at isOpen
          cases isOpen
  | cons character others inductionHypothesis =>
      rw [List.cons_append, Mark.ofText, Mark.ofText, collapse, collapse]
      by_cases isGap : Mark.isGap ⟨character, state.isOpen⟩ = true
      · obtain ⟨rfl, blank⟩ := Mark.outside_of_isGap isGap
        rw [if_pos isGap, if_pos isGap]
        exact inductionHypothesis true _ (fun _ => Quoting.next_outside_of_blank blank) isOpen
      · have later := inductionHypothesis false (state.next character) (by simp) isOpen
        rw [if_neg isGap, if_neg isGap, later]
        cases gap <;> rfl

/-- A tag as it is read: a sign and something that holds no further sign, no gap but
single spaces, and no blank at its end. -/
inductive Spelled : Text → Prop
  | mk {body : Text} :
      body ≠ [] →
      (∀ front behind, ¬ SignAt body front behind) →
      collapse false (Mark.ofText .outside body) = body →
      EndsTight body →
      Spelled (Mark.tagSign :: body)

theorem Spelled.endsTight
    {tag : Text}
    (spelled : Spelled tag) :
    EndsTight tag := by
  obtain ⟨filled, _, _, tight⟩ := spelled
  exact tight.append_of_ne_nil [Mark.tagSign] filled

theorem Spelled.ne_nil
    {tag : Text}
    (spelled : Spelled tag) :
    tag ≠ [] := by
  obtain ⟨_, _, _, _⟩ := spelled
  exact List.cons_ne_nil Mark.tagSign _

theorem Spelled.exists_body
    {tag : Text}
    (spelled : Spelled tag) :
    ∃ body, tag = Mark.tagSign :: body ∧ (∀ front behind, ¬ SignAt body front behind) ∧
      ofPart body = tag := by
  obtain ⟨_, unsigned, collapsed, _⟩ := spelled
  exact ⟨_, rfl, unsigned, by rw [ofPart, collapsed]⟩

theorem filled_of_endsTight
    {body : Text}
    (filled : body ≠ [])
    (tight : EndsTight body) :
    Filled body := by
  obtain ⟨last, isLast⟩ := Option.ne_none_iff_exists'.mp (mt List.getLast?_eq_none_iff.mp filled)
  exact ⟨last, List.mem_of_getLast? isLast, tight last isLast⟩

namespace Parts

variable {text : Text} {parts : List Text}

theorem endsTight_collapse
    (cut : Parts text parts)
    (tight : EndsTight text)
    {part : Text} (member : part ∈ parts)
    (filled : Filled part) :
    EndsTight (collapse false (Mark.ofText .outside part)) := by
  obtain ⟨earlier, later, rfl⟩ := List.append_of_mem member
  cases later with
  | cons next others =>
      have closed : Quoting.after .outside part = .outside :=
        (List.pairwise_cons.mp (List.pairwise_append.mp cut.closed).2.1).1 next List.mem_cons_self
      exact Tags.endsTight_collapse false .outside trivial closed
  | nil =>
      obtain ⟨character, inPart, _⟩ := filled
      obtain ⟨last, isLast⟩ := Option.ne_none_iff_exists'.mp
        (mt List.getLast?_eq_none_iff.mp (List.ne_nil_of_mem inPart))
      have endsText : text.getLast? = some last := by
        rw [cut.joined, List.flatMap_append, List.flatMap_singleton, ← List.singleton_append,
          ← List.append_assoc, List.getLast?_append, isLast]
        rfl
      have kept := getLast?_collapse false .outside isLast (tight last endsText)
      intro written isWritten
      rw [kept, Option.some.injEq] at isWritten
      rw [← isWritten]
      exact tight last endsText

theorem spelled
    (cut : Parts text parts)
    (tight : EndsTight text)
    (filled : ∀ part ∈ parts, Filled part) :
    ∀ tag ∈ parts.map ofPart, Spelled tag := by
  intro tag member
  obtain ⟨part, partMember, rfl⟩ := List.mem_map.mp member
  have long := squash_ofPart_length (filled part partMember)
  obtain ⟨settled, _, staysUnsigned⟩ := collapse_again false .outside part fun _ => rfl
  have unsigned := (unsigned_iff part).mpr (cut.unsigned part partMember)
  refine .mk ?_ ((unsigned_iff _).mp (staysUnsigned unsigned)) settled
    (cut.endsTight_collapse tight partMember (filled part partMember))
  intro isEmpty
  rw [ofPart, isEmpty] at long
  exact absurd long (by decide)

theorem closed_ofPart
    (cut : Parts text parts) :
    (parts.map ofPart).Pairwise fun tag _ => Quoting.after .outside tag = .outside := by
  rw [List.pairwise_map]
  simpa only [after_ofPart] using cut.closed

end Parts

/-! ## Tags in a row -/

/-- Tags with blanks between them. -/
inductive Row : List Text → Text → Prop
  | none : Row [] []
  | last (tag : Text) : Row [tag] tag
  | more {blanks next text : Text} {later : List Text} (tag : Text) :
      (∀ character ∈ blanks, isBlank character = true) →
      Row (next :: later) text →
      Row (tag :: next :: later) (tag ++ (blanks ++ text))

namespace Row

variable {tags : List Text} {text : Text}

theorem intercalate
    (tags : List Text) :
    Row tags (([' '] : Text).intercalate tags) := by
  induction tags with
  | nil =>
      exact .none
  | cons tag rest inductionHypothesis =>
      cases rest with
      | nil =>
          have single : ([' '] : Text).intercalate [tag] = tag := by simp [List.intercalate]
          rw [single]
          exact .last tag
      | cons next later =>
          rw [List.intercalate_cons_cons, List.append_assoc]
          exact .more tag isBlank_of_mem_space inductionHypothesis

theorem startsTight
    (row : Row tags text)
    (spelled : ∀ tag ∈ tags, Spelled tag) :
    StartsTight text := by
  intro character isFirst
  cases row with
  | none =>
      cases isFirst
  | last tag =>
      obtain ⟨_, _, _, _⟩ := spelled _ List.mem_cons_self
      cases isFirst
      rfl
  | more tag _ _ =>
      obtain ⟨_, _, _, _⟩ := spelled _ List.mem_cons_self
      cases isFirst
      rfl

theorem endsTight
    (row : Row tags text)
    (spelled : ∀ tag ∈ tags, Spelled tag) :
    EndsTight text ∧ (tags ≠ [] → text ≠ []) := by
  induction row with
  | none =>
      exact ⟨fun character isLast => absurd isLast (by simp), fun filled => absurd rfl filled⟩
  | last tag =>
      have first := spelled tag List.mem_cons_self
      exact ⟨first.endsTight, fun _ => first.ne_nil⟩
  | @more blanks next text later tag _ _ inductionHypothesis =>
      obtain ⟨tight, filled⟩ := inductionHypothesis (List.forall_mem_cons.mp spelled).2
      have notEmpty := filled (List.cons_ne_nil next later)
      refine ⟨?_, fun _ => by simp [notEmpty]⟩
      rw [← List.append_assoc]
      exact tight.append_of_ne_nil _ notEmpty

/-- Tags in a row are cut out again, unless one that is followed by another leaves a
string open. -/
theorem exists_parts
    (row : Row tags text)
    (spelled : ∀ tag ∈ tags, Spelled tag)
    (closed : tags.Pairwise fun tag _ => Quoting.after .outside tag = .outside) :
    ∃ parts, Parts text parts ∧ (∀ part ∈ parts, Filled part) ∧ parts.map ofPart = tags := by
  induction row with
  | none =>
      exact ⟨[], ⟨rfl, by simp, .nil⟩, by simp, rfl⟩
  | last tag =>
      have first := spelled tag List.mem_cons_self
      cases first with
      | @mk body filled unsigned collapsed tight =>
          refine ⟨[body], ⟨by simp, by simpa using unsigned, List.pairwise_singleton _ _⟩, ?_, ?_⟩
          · simpa using filled_of_endsTight filled tight
          · rw [List.map_singleton, ofPart, collapsed]
  | @more blanks next text later tag allBlank _ inductionHypothesis =>
      obtain ⟨first, others⟩ := List.forall_mem_cons.mp spelled
      obtain ⟨firstClosed, othersClosed⟩ := List.pairwise_cons.mp closed
      obtain ⟨parts, cut, partsFilled, read⟩ := inductionHypothesis others othersClosed
      have tagClosed := firstClosed next List.mem_cons_self
      cases first with
      | @mk body filled unsigned collapsed tight =>
          have bodyClosed : Quoting.after .outside body = .outside := tagClosed
          obtain ⟨gaps, blanksClosed⟩ := Mark.ofText_blanks allBlank
          refine ⟨(body ++ blanks) :: parts, ⟨?_, ?_, ?_⟩, ?_, ?_⟩
          · rw [List.flatMap_cons, ← cut.joined]
            simp
          · refine List.forall_mem_cons.mpr ⟨?_, cut.unsigned⟩
            intro front behind isSign
            obtain ⟨more, _, inBlanks⟩ := isSign.exists_of_unsigned unsigned
            exact absurd (allBlank Mark.tagSign (by simp [inBlanks])) (by decide)
          · refine List.pairwise_cons.mpr ⟨fun _ _ => ?_, cut.closed⟩
            rw [Quoting.after_append, bodyClosed, blanksClosed]
          · obtain ⟨character, inBody, notBlank⟩ := filled_of_endsTight filled tight
            exact List.forall_mem_cons.mpr
              ⟨⟨character, List.mem_append_left blanks inBody, notBlank⟩, partsFilled⟩
          · rw [List.map_cons, read, ofPart, Mark.ofText_append, bodyClosed,
              collapse_append_gaps _ _ gaps, collapsed]

end Row

/-- A tag that leaves a string open takes in what follows it. -/
theorem Parts.exists_longer
    {body rest : Text} {parts : List Text}
    (cut : Parts (Mark.tagSign :: (body ++ rest)) parts)
    (unsigned : ∀ front behind, ¬ SignAt body front behind)
    (isOpen : (Quoting.after .outside body).isOpen = true)
    (goesOn : rest ≠ []) :
    ∃ more others, more ≠ [] ∧ parts = (body ++ more) :: others := by
  cases parts with
  | nil =>
      cases cut.joined
  | cons first others =>
      have split : body ++ rest = first ++ others.flatMap (Mark.tagSign :: ·) := by
        have joined := cut.joined
        rw [List.flatMap_cons, List.cons_append] at joined
        exact (List.cons_eq_cons.mp joined).2
      have notBody (isLast : others.flatMap (Mark.tagSign :: ·) ≠ []) : first ≠ body := by
        intro isBody
        rw [← isBody, cut.closed_of_ne_nil isLast] at isOpen
        cases isOpen
      rcases List.append_eq_append_iff.mp split with
        ⟨more, isFirst, isRest⟩ | ⟨more, isBody, isLater⟩
      · refine ⟨more, others, ?_, by rw [isFirst]⟩
        intro isEmpty
        rw [isEmpty, List.append_nil] at isFirst
        rw [isEmpty, List.nil_append] at isRest
        exact notBody (isRest ▸ goesOn) isFirst
      · have hasLater : others.flatMap (Mark.tagSign :: ·) ≠ [] := by
          rw [isLater]
          exact List.append_ne_nil_of_right_ne_nil _ goesOn
        cases more with
        | nil =>
            rw [List.append_nil] at isBody
            exact absurd isBody.symm (notBody hasLater)
        | cons character behind =>
            cases others with
            | nil =>
                exact absurd rfl hasLater
            | cons second later =>
                have isSign : Mark.tagSign = character := by
                  simpa using congrArg List.head? isLater
                subst isSign
                exact absurd ⟨isBody, cut.closed_of_ne_nil hasLater⟩ (unsigned first behind)

theorem ofPart_append_of_isOpen
    {body more : Text}
    (isOpen : (Quoting.after .outside body).isOpen = true)
    (goesOn : more ≠ []) :
    ∃ extra, extra ≠ [] ∧ ofPart (body ++ more) = ofPart body ++ extra := by
  refine ⟨collapse false (Mark.ofText (Quoting.after .outside body) more), ?_, ?_⟩
  · obtain ⟨first, others, rfl⟩ := List.exists_cons_of_ne_nil goesOn
    simp [Mark.ofText, collapse, Mark.isGap, isOpen]
  · rw [ofPart, collapse_append_of_isOpen false .outside body (by simp) isOpen]
    rfl

end Tags

/-! ## Declarations -/

theorem Text.startsWithAny_append
    {beginnings : List Text} {text : Text}
    (starts : startsWithAny beginnings text = true) (rest : Text) :
    startsWithAny beginnings (text ++ rest) = true := by
  obtain ⟨beginning, member, isPrefix⟩ := List.any_eq_true.mp starts
  refine List.any_eq_true.mpr ⟨beginning, member, ?_⟩
  rw [List.isPrefixOf_iff_prefix] at isPrefix ⊢
  exact isPrefix.trans (List.prefix_append text rest)

namespace Field

variable {options : Options} {line : Text} {field : Field}

theorem Located.cases
    {isLocation : Text → Bool} {tags others : List Text} {location : Text}
    (located : Located isLocation tags location others) :
    (∀ tag ∈ tags, isLocation tag = false) ∧ location = [] ∧ others = tags ∨
      ∃ front behind, tags = front ++ location :: behind ∧ others = front ++ behind ∧
        isLocation location = true := by
  cases located with
  | missing noLocation =>
      exact Or.inl ⟨noLocation, rfl, rfl⟩
  | @first front behind _ _ isFound =>
      exact Or.inr ⟨front, behind, rfl, rfl, isFound⟩

/-- What the parts of a declaration have in common with those of a line that was read. -/
structure Spelled (options : Options) (field : Field) : Prop where
  name_word : IsWord field.name
  type_word : IsWord field.columnType
  tags_spelled : ∀ tag ∈ field.writtenTags, Tags.Spelled tag
  tags_closed : field.tags.Pairwise fun tag _ => Quoting.after .outside tag = .outside
  located :
    Located (startsWithAny options.locationPrefixes) field.writtenTags field.location field.tags

theorem Spelled.of_location
    (spelled : field.Spelled options)
    (hasLocation : field.location ≠ []) :
    Tags.Spelled field.location := by
  apply spelled.tags_spelled
  rw [writtenTags, if_neg hasLocation]
  exact List.mem_cons_self

theorem Spelled.of_mem_tags
    (spelled : field.Spelled options)
    {tag : Text} (member : tag ∈ field.tags) :
    Tags.Spelled tag := by
  apply spelled.tags_spelled
  unfold writtenTags
  split
  · exact member
  · exact List.mem_cons_of_mem _ member

theorem spelled_of_parse
    (parsed : parse options line = .ok field) :
    field.Spelled options := by
  obtain ⟨remainder, parts, heads, cut, filled, located⟩ := parse_eq_ok_iff.mp parsed
  have spelled := cut.spelled heads.ends_tight filled
  have closed := cut.closed_ofPart
  rcases located.cases with
    ⟨noLocation, isEmpty, sameTags⟩ | ⟨front, behind, split, others, isFound⟩
  · have unmoved : field.writtenTags = parts.map Tags.ofPart := by
      rw [writtenTags, if_pos isEmpty, sameTags]
    refine ⟨heads.name_word, heads.type_word, ?_, ?_, ?_⟩
    · rw [unmoved]
      exact spelled
    · rw [sameTags]
      exact closed
    · rw [unmoved]
      exact located
  · rw [split] at spelled closed
    have moved : field.writtenTags = field.location :: (front ++ behind) := by
      have isTag := (spelled field.location (by simp)).ne_nil
      rw [writtenTags, if_neg isTag, others]
    refine ⟨heads.name_word, heads.type_word, ?_, ?_, ?_⟩
    · intro tag member
      rw [moved] at member
      exact spelled tag (List.perm_middle.mem_iff.mpr member)
    · rw [others]
      exact closed.sublist (List.Sublist.append_left (List.sublist_cons_self _ _) _)
    · rw [moved, others]
      exact @Located.first _ [] (front ++ behind) _ (by simp) isFound

end Field

/-! ## Blocks -/

namespace Block

variable {options : Options} {block : Block} {field : Field}

/-- The tags are written in a row. -/
theorem exists_row_layOutTags
    (block : Block) (field : Field) :
    ∃ between remainder behind, block.layOutTags field = between ++ (remainder ++ behind) ∧
      (∀ character ∈ between, isBlank character = true) ∧ between ≠ [] ∧
      (∀ character ∈ behind, isBlank character = true) ∧
      Tags.Row field.writtenTags remainder := by
  let gap (count : Nat) : Text := List.replicate count (CodePoint.scalar ' ') ++ ([' '] : Text)
  have gapBlank (count : Nat) : ∀ character ∈ gap count, isBlank character = true :=
    List.forall_mem_append.mpr ⟨isBlank_of_mem_replicate count, isBlank_of_mem_space⟩
  have gapFilled (count : Nat) : gap count ≠ [] := by simp [gap]
  let typeGap := gap (block.typeWidth - field.columnType.length)
  let tagGap := gap (block.tagWidth - field.location.length)
  have shape :
      block.layOutTags field =
        typeGap ++ (field.location ++ (tagGap ++ ([' '] : Text).intercalate field.tags)) := by
    simp only [layOutTags, typeGap, tagGap, gap, List.append_assoc]
  rw [shape]
  by_cases noLocation : field.location = []
  · refine ⟨typeGap ++ tagGap, ([' '] : Text).intercalate field.tags, [], ?_,
      List.forall_mem_append.mpr ⟨gapBlank _, gapBlank _⟩,
      List.append_ne_nil_of_left_ne_nil (gapFilled _) _, by simp, ?_⟩
    · simp only [noLocation, List.nil_append, List.append_nil, List.append_assoc]
    · rw [Field.writtenTags, if_pos noLocation]
      exact .intercalate field.tags
  · rw [Field.writtenTags, if_neg noLocation]
    cases isRest : field.tags with
    | nil =>
        exact ⟨typeGap, field.location, tagGap, by simp [List.intercalate], gapBlank _,
          gapFilled _, gapBlank _, .last field.location⟩
    | cons next later =>
        exact ⟨typeGap,
          field.location ++ (tagGap ++ ([' '] : Text).intercalate (next :: later)), [],
          by simp, gapBlank _, gapFilled _, by simp,
          .more field.location (gapBlank _) (.intercalate (next :: later))⟩

theorem heads_layOut
    (spaces : ∀ character ∈ block.indent, character = ' ')
    (spelled : field.Spelled options) :
    ∃ remainder, Field.Heads (block.layOut field) field.name field.columnType remainder ∧
      Tags.Row field.writtenTags remainder := by
  obtain ⟨between, remainder, behind, tagsEq, betweenBlank, separated, behindBlank, row⟩ :=
    block.exists_row_layOutTags field
  refine ⟨remainder, ?_, row⟩
  refine
    { name_word := spelled.name_word
      type_word := spelled.type_word
      starts_tight := row.startsTight spelled.tags_spelled
      ends_tight := (row.endsTight spelled.tags_spelled).1
      line_eq := ⟨block.indent, block.nameGap field, between, behind, ?_,
        isBlank_of_mem_indent spaces, block.isBlank_of_mem_nameGap field,
        block.nameGap_ne_nil field, betweenBlank, fun _ => separated, behindBlank⟩ }
  rw [layOut_eq, tagsEq, nameGap]

theorem parse_layOut_of_closed
    (spaces : ∀ character ∈ block.indent, character = ' ')
    (spelled : field.Spelled options)
    (closed : field.tags = [] ∨ Quoting.after .outside field.location = .outside) :
    Field.parse options (block.layOut field) = .ok field := by
  obtain ⟨remainder, heads, row⟩ := heads_layOut spaces spelled
  have allClosed :
      field.writtenTags.Pairwise fun tag _ => Quoting.after .outside tag = .outside := by
    unfold Field.writtenTags
    split
    · exact spelled.tags_closed
    · refine List.pairwise_cons.mpr ⟨?_, spelled.tags_closed⟩
      intro tag member
      exact closed.resolve_left (List.ne_nil_of_mem member)
  obtain ⟨parts, cut, filled, read⟩ := row.exists_parts spelled.tags_spelled allClosed
  refine Field.parse_eq_ok_iff.mpr ⟨remainder, parts, heads, cut, filled, ?_⟩
  rw [read]
  exact spelled.located

theorem parse_layOut_of_isOpen
    (spaces : ∀ character ∈ block.indent, character = ' ')
    (spelled : field.Spelled options)
    (followed : field.tags ≠ [])
    (isOpen : ¬ Quoting.after .outside field.location = .outside) :
    Field.parse options (block.layOut field) ≠ .ok field := by
  intro same
  have hasLocation : field.location ≠ [] := by
    intro isEmpty
    rw [isEmpty] at isOpen
    exact isOpen rfl
  have tagsEq : field.writtenTags = field.location :: field.tags := by
    rw [Field.writtenTags, if_neg hasLocation]
  have isLocation : startsWithAny options.locationPrefixes field.location = true := by
    rcases spelled.located.cases with ⟨_, isEmpty, _⟩ | ⟨_, _, _, _, isFound⟩
    · exact absurd isEmpty hasLocation
    · exact isFound
  obtain ⟨body, isTag, unsigned, isPart⟩ := (spelled.of_location hasLocation).exists_body
  have bodyOpen : (Quoting.after .outside body).isOpen = true := by
    cases bodyState : (Quoting.after .outside body).isOpen with
    | true =>
        rfl
    | false =>
        rw [isTag] at isOpen
        exact absurd (Quoting.eq_outside_of_not_isOpen bodyState) isOpen
  obtain ⟨remainder, heads, row⟩ := heads_layOut spaces spelled
  obtain ⟨next, later, isTags⟩ := List.exists_cons_of_ne_nil followed
  obtain ⟨rest, goesOn, remainderEq⟩ :
      ∃ rest, rest ≠ [] ∧ remainder = Mark.tagSign :: (body ++ rest) := by
    rw [tagsEq, isTags] at row
    cases row with
    | @more blanks _ text _ _ _ others =>
        rw [← isTags] at others
        have notEmpty := (others.endsTight fun _ => spelled.of_mem_tags).2 followed
        exact ⟨blanks ++ text, List.append_ne_nil_of_right_ne_nil _ notEmpty, by rw [isTag]; rfl⟩
  obtain ⟨other, parts, otherHeads, cut, _, located⟩ := Field.parse_eq_ok_iff.mp same
  rw [← otherHeads.read.2.2, heads.read.2.2, remainderEq] at cut
  obtain ⟨more, others, moreFilled, rfl⟩ := cut.exists_longer unsigned bodyOpen goesOn
  obtain ⟨extra, extraFilled, longer⟩ := Tags.ofPart_append_of_isOpen bodyOpen moreFilled
  have found := (Field.located_iff.mp located).1
  rw [List.map_cons, longer, isPart,
    List.find?_cons_of_pos (startsWithAny_append isLocation extra), Option.getD_some] at found
  exact extraFilled (List.self_eq_append_right.mp found)

/-- A declaration that was read is written as a line that is read as the same declaration,
exactly when its location tag closes its strings or is its only tag. -/
theorem parse_renderEntry_iff
    (options : Options) (lines : List Text) {line : Text} {field : Field}
    (parsed : Field.parse options line = .ok field) :
    Field.parse options
        ((ofLines options lines).renderEntry (Entry.ofLine options line)) = .ok field ↔
      field.tags = [] ∨ Quoting.after .outside field.location = .outside := by
  have spelled := Field.spelled_of_parse parsed
  have spaces := indent_ofLines options lines
  rw [Entry.ofLine, parsed, renderEntry, Field.parse_stripRight]
  constructor
  · intro same
    by_cases isLast : field.tags = []
    · exact Or.inl isLast
    · by_cases isClosed : Quoting.after .outside field.location = .outside
      · exact Or.inr isClosed
      · exact absurd same (parse_layOut_of_isOpen spaces spelled isLast isClosed)
  · exact parse_layOut_of_closed spaces spelled

/-- Declarations that end within a string: in a tag that stays last, and twice in a
location tag that is written in front of another tag. -/
def openLines : List Text :=
  ["name String @default( \"a  @ \\\" b\" )  @map('it\\'s') @db.Text // don't",
   "id Int @id @map('id') // it's",
   "at Date @default('@ @') @map('at') // it's"]

theorem parse_renderEntry_openLast :
    ∃ aligned, (align {} openLines)[0]? = some aligned ∧
      Field.parse {} aligned =
        .ok { name := "name"
              columnType := "String"
              location := "@map('it\\'s')"
              tags := ["@default( \"a  @ \\\" b\" )", "@db.Text // don't"] } := by
  have parsed :
      Field.parse {} ("name String @default( \"a  @ \\\" b\" )  " ++
          "@map('it\\'s') @db.Text // don't") =
        .ok { name := "name"
              columnType := "String"
              location := "@map('it\\'s')"
              tags := ["@default( \"a  @ \\\" b\" )", "@db.Text // don't"] } := by
    decide +kernel
  exact ⟨_, rfl, (parse_renderEntry_iff {} openLines parsed).mpr (Or.inr (by decide))⟩

/-- The tag behind the open string becomes a part of it; where its own quotes close the
string, the line may not be read at all.  Aligning again then moves other tags. -/
theorem parse_renderEntry_openLocation :
    Field.parse {} ("id Int @id @map('id') // it's" : Text) =
        .ok { name := "id"
              columnType := "Int"
              location := "@map('id') // it's"
              tags := ["@id"] } ∧
      (align {} openLines)[1]? = some ("  id   Int    @map('id') // it's @id" : Text) ∧
      Field.parse {} ("  id   Int    @map('id') // it's @id" : Text) =
        .ok { name := "id"
              columnType := "Int"
              location := "@map('id') // it's @id"
              tags := [] } ∧
      (Field.parse {} "at Date @default('@ @') @map('at') // it's").isOk = true ∧
      (align {} openLines)[2]? =
        some ("  at   Date   @map('at') // it's @default('@ @')" : Text) ∧
      (Field.parse {} "  at   Date   @map('at') // it's @default('@ @')").isOk = false ∧
      align {} (align {} openLines) ≠ align {} openLines := by
  decide +kernel

end Block

end Tidy
