import Tidy.Proofs.Reading
import Tidy.Proofs.Words

/-!
# The grammar of declarations

A declaration is two words and tags.  The tags start at the at signs outside quoted
strings, and each of them holds something besides its sign.  Reading a line finds this out
by counting characters; here the lines that are read, what is read of them, and the lines
that are refused are told without it.
-/

namespace Tidy

open Text

/-! ## The first two words -/

namespace Text

theorem IsWord.words_eq
    {word : Text}
    (isWord : IsWord word) :
    words word = [word] := by
  unfold words
  rw [List.splitOnP_eq_singleton isWord.2]
  simp [isWord.1]

end Text

namespace Field

structure Heads (line name columnType remainder : Text) : Prop where
  name_word : IsWord name
  type_word : IsWord columnType
  starts_tight : StartsTight remainder
  ends_tight : EndsTight remainder
  line_eq :
    ∃ before gap between behind,
      line = before ++ (name ++ (gap ++ (columnType ++ (between ++ (remainder ++ behind))))) ∧
        (∀ character ∈ before, isBlank character = true) ∧
        (∀ character ∈ gap, isBlank character = true) ∧ gap ≠ [] ∧
        (∀ character ∈ between, isBlank character = true) ∧ (remainder ≠ [] → between ≠ []) ∧
        ∀ character ∈ behind, isBlank character = true

variable {line name columnType remainder : Text}

theorem Heads.words_eq
    (heads : Heads line name columnType remainder) :
    words line = name :: columnType :: words remainder := by
  obtain ⟨before, gap, between, behind, rfl, beforeBlank, gapBlank, separated, betweenBlank,
    parted, behindBlank⟩ := heads.line_eq
  have tailWords :
      words (columnType ++ (between ++ (remainder ++ behind))) =
        columnType :: words remainder := by
    by_cases isEmpty : remainder = []
    · have allBlank : ∀ character ∈ between ++ behind, isBlank character = true :=
        List.forall_mem_append.mpr ⟨betweenBlank, behindBlank⟩
      rw [isEmpty, List.nil_append, words_append_blanks allBlank, heads.type_word.words_eq]
      rfl
    · rw [words_gap betweenBlank (parted isEmpty), words_append_blanks behindBlank,
        heads.type_word.words_eq]
      rfl
  rw [words_blanks_append beforeBlank, words_gap gapBlank separated, heads.name_word.words_eq,
    tailWords]
  rfl

/-- The parts of a line are what reading takes from it. -/
theorem Heads.read
    (heads : Heads line name columnType remainder) :
    line.strip.firstWord = name ∧ line.strip.afterWord.firstWord = columnType ∧
      tagPart line = remainder := by
  obtain ⟨before, gap, between, behind, rfl, beforeBlank, gapBlank, separated, betweenBlank,
    parted, behindBlank⟩ := heads.line_eq
  have bounded :
      ∀ character, (between ++ (remainder ++ behind)).head? = some character →
        isBlank character = true := by
    intro character isFirst
    cases between with
    | cons first others =>
        cases isFirst
        exact betweenBlank character List.mem_cons_self
    | nil =>
        have isEmpty : remainder = [] := by
          cases remainder with
          | nil =>
              rfl
          | cons first others =>
              exact absurd rfl (parted (List.cons_ne_nil _ _))
        rw [isEmpty] at isFirst
        exact behindBlank character (List.mem_of_head? isFirst)
  have tagsRead : stripLeft (stripRight (between ++ (remainder ++ behind))) = remainder := by
    by_cases isEmpty : remainder = []
    · have allBlank : ∀ character ∈ between ++ behind, isBlank character = true :=
        List.forall_mem_append.mpr ⟨betweenBlank, behindBlank⟩
      have nothing := stripRight_append_of_blank [] allBlank
      rw [List.nil_append] at nothing
      rw [isEmpty, List.nil_append, nothing]
      rfl
    · have tight : EndsTight (between ++ remainder) :=
        heads.ends_tight.append_of_ne_nil between isEmpty
      rw [← List.append_assoc, stripRight_append_of_blank _ behindBlank,
        stripRight_eq_self_of_endsTight tight,
        stripLeft_blanks_append betweenBlank heads.starts_tight]
  obtain ⟨_, readName, readType, afterType⟩ :=
    read_spaced beforeBlank heads.name_word gapBlank separated heads.type_word bounded
  exact ⟨readName, readType, afterType.trans tagsRead⟩

/-- A line that has a second word. -/
theorem heads_of_type
    (hasType : line.strip.afterWord.firstWord ≠ []) :
    Heads line line.strip.firstWord line.strip.afterWord.firstWord (tagPart line) := by
  have filledType : line.strip.afterWord ≠ [] := by
    intro isEmpty
    rw [isEmpty] at hasType
    exact hasType rfl
  have filled : line.strip ≠ [] := by
    intro isEmpty
    rw [isEmpty] at filledType
    exact filledType rfl
  obtain ⟨before, behind, lineSplit, beforeBlank, behindBlank⟩ := exists_append_strip_append line
  obtain ⟨gap, nameSplit, gapBlank, separated⟩ := exists_firstWord_append line.strip
  obtain ⟨between, typeSplit, betweenBlank, parted⟩ :=
    exists_firstWord_append line.strip.afterWord
  have endsTight : EndsTight (tagPart line) := by
    intro character isLast
    refine endsTight_strip line character ?_
    rw [nameSplit, typeSplit, List.getLast?_append, List.getLast?_append, List.getLast?_append,
      List.getLast?_append, ← tagPart, isLast]
    rfl
  refine
    { name_word := isWord_firstWord (startsTight_strip line) filled
      type_word := isWord_firstWord (startsTight_stripLeft _) filledType
      starts_tight := startsTight_stripLeft _
      ends_tight := endsTight
      line_eq := ⟨before, gap, between, behind, ?_, beforeBlank, gapBlank, separated filledType,
        betweenBlank, parted, behindBlank⟩ }
  conv => lhs; rw [lineSplit, nameSplit, typeSplit]
  simp only [tagPart, List.append_assoc]

/-- A line without a second word has at most one. -/
theorem length_words_of_noType
    (noType : line.strip.afterWord.firstWord = []) :
    (words line).length < 2 := by
  obtain ⟨before, behind, lineSplit, beforeBlank, behindBlank⟩ := exists_append_strip_append line
  obtain ⟨gap, nameSplit, gapBlank, _⟩ := exists_firstWord_append line.strip
  have nothingBehind : line.strip.afterWord = [] := by
    by_cases isEmpty : line.strip.afterWord = []
    · exact isEmpty
    · exact absurd noType (isWord_firstWord (startsTight_stripLeft _) isEmpty).1
  rw [nothingBehind, List.append_nil] at nameSplit
  have single : words line = words line.strip.firstWord := by
    conv => lhs; rw [lineSplit, nameSplit]
    rw [words_append_blanks behindBlank, words_blanks_append beforeBlank,
      words_append_blanks gapBlank]
  rw [single]
  by_cases isEmpty : line.strip = []
  · rw [isEmpty]
    decide
  · rw [(isWord_firstWord (startsTight_strip line) isEmpty).words_eq]
    exact Nat.lt_succ_self 1

end Field

/-! ## The signs of tags -/

namespace Tags

/-- A sign outside quoted strings, with what stands in front of it and behind it. -/
def SignAt (text front behind : Text) : Prop :=
  text = front ++ Mark.tagSign :: behind ∧ Quoting.after .outside front = .outside

/-- A text cut at its signs outside quoted strings: no part holds a further one, and
every part but the last closes its strings, so that the next sign is outside them. -/
structure Parts (text : Text) (parts : List Text) : Prop where
  joined : text = parts.flatMap (Mark.tagSign :: ·)
  unsigned : ∀ part ∈ parts, ∀ front behind, ¬ SignAt part front behind
  closed : parts.Pairwise fun part _ => Quoting.after .outside part = .outside

def Filled (part : Text) : Prop :=
  ∃ character ∈ part, isBlank character = false

theorem startsTag_eq_false_iff
    (state : Quoting) (text : Text) :
    (∀ mark ∈ Mark.ofText state text, mark.startsTag = false) ↔
      ∀ front behind, text = front ++ Mark.tagSign :: behind →
        (state.after front).isOpen = true := by
  induction text generalizing state with
  | nil =>
      simp [Mark.ofText]
  | cons character rest inductionHypothesis =>
      rw [Mark.ofText, List.forall_mem_cons, inductionHypothesis]
      constructor
      · rintro ⟨first, later⟩ front behind split
        cases front with
        | nil =>
            cases split
            have quoted : state.isOpen = true := by simpa [Mark.startsTag] using first
            exact quoted
        | cons head others =>
            cases split
            exact later others behind rfl
      · intro allQuoted
        constructor
        · by_cases isSign : character = Mark.tagSign
          · have quoted := allQuoted [] rest (by rw [isSign]; rfl)
            rw [Mark.startsTag, show state.isOpen = true from quoted]
            rfl
          · simp [Mark.startsTag, isSign]
        · intro front behind split
          exact allQuoted (character :: front) behind (by rw [split]; rfl)

theorem unsigned_iff
    (part : Text) :
    (∀ mark ∈ Mark.ofText .outside part, mark.startsTag = false) ↔
      ∀ front behind, ¬ SignAt part front behind := by
  rw [startsTag_eq_false_iff]
  constructor
  · rintro allQuoted front behind ⟨split, isOutside⟩
    have quoted := allQuoted front behind split
    rw [isOutside] at quoted
    cases quoted
  · intro noSign front behind split
    cases isOpen : (Quoting.after .outside front).isOpen with
    | true =>
        rfl
    | false =>
        exact absurd ⟨split, Quoting.eq_outside_of_not_isOpen isOpen⟩ (noSign front behind)

/-- A sign is not inside a part without signs. -/
theorem SignAt.exists_of_unsigned
    {part rest front behind : Text}
    (signAt : SignAt (part ++ rest) front behind)
    (unsigned : ∀ front behind, ¬ SignAt part front behind) :
    ∃ more, front = part ++ more ∧ rest = more ++ Mark.tagSign :: behind := by
  obtain ⟨split, isOutside⟩ := signAt
  rcases List.append_eq_append_iff.mp split with ⟨more, isFront, isRest⟩ | ⟨more, isPart, isRest⟩
  · exact ⟨more, isFront, isRest⟩
  · cases more with
    | nil =>
        rw [List.append_nil] at isPart
        exact ⟨[], by rw [isPart, List.append_nil], isRest.symm⟩
    | cons first others =>
        cases isRest
        exact absurd ⟨isPart, isOutside⟩ (unsigned front others)

/-- The signs of a text are its first one and those of what follows its first part. -/
theorem signAt_cons_iff
    {part rest : Text}
    (unsigned : ∀ front behind, ¬ SignAt part front behind)
    (closed : rest ≠ [] → Quoting.after .outside part = .outside) (front behind : Text) :
    SignAt (Mark.tagSign :: (part ++ rest)) front behind ↔
      front = [] ∧ behind = part ++ rest ∨
        ∃ more, front = Mark.tagSign :: (part ++ more) ∧ SignAt rest more behind := by
  -- Behind a part that closes its strings, the signs are those of the rest alone.
  have afterPart (more : Text) (filled : rest ≠ []) :
      Quoting.after .outside (Mark.tagSign :: (part ++ more)) = Quoting.after .outside more := by
    have skipped : Quoting.after .outside (Mark.tagSign :: (part ++ more)) =
        Quoting.after .outside (part ++ more) := rfl
    rw [skipped, Quoting.after_append, closed filled]
  constructor
  · rintro ⟨split, isOutside⟩
    cases front with
    | nil =>
        cases split
        exact Or.inl ⟨rfl, rfl⟩
    | cons first others =>
        obtain ⟨rfl, splitRest⟩ := List.cons_eq_cons.mp split
        have inRest : SignAt (part ++ rest) others behind := ⟨splitRest, isOutside⟩
        obtain ⟨more, rfl, restSplit⟩ := inRest.exists_of_unsigned unsigned
        have filled : rest ≠ [] := by simp [restSplit]
        rw [afterPart more filled] at isOutside
        exact Or.inr ⟨more, rfl, restSplit, isOutside⟩
  · rintro (⟨rfl, rfl⟩ | ⟨more, rfl, restSplit, isOutside⟩)
    · exact ⟨rfl, rfl⟩
    · have filled : rest ≠ [] := by simp [restSplit]
      refine ⟨?_, (afterPart more filled).trans isOutside⟩
      rw [restSplit, List.cons_append, List.append_assoc]

namespace Parts

variable {text part : Text} {parts : List Text}

theorem tail
    (cut : Parts text (part :: parts)) :
    Parts (parts.flatMap (Mark.tagSign :: ·)) parts :=
  { joined := rfl
    unsigned := (List.forall_mem_cons.mp cut.unsigned).2
    closed := (List.pairwise_cons.mp cut.closed).2 }

theorem closed_of_ne_nil
    (cut : Parts text (part :: parts))
    (goesOn : parts.flatMap (Mark.tagSign :: ·) ≠ []) :
    Quoting.after .outside part = .outside := by
  cases parts with
  | nil =>
      exact absurd rfl goesOn
  | cons next later =>
      exact (List.pairwise_cons.mp cut.closed).1 next List.mem_cons_self

/-- A text is cut at all its signs and at nothing else. -/
theorem signAt_iff
    (cut : Parts text parts) (front behind : Text) :
    SignAt text front behind ↔
      ∃ earlier part later, parts = earlier ++ part :: later ∧
        front = earlier.flatMap (Mark.tagSign :: ·) ∧
        behind = part ++ later.flatMap (Mark.tagSign :: ·) := by
  induction parts generalizing text front with
  | nil =>
      rw [cut.joined]
      simp [SignAt]
  | cons part rest inductionHypothesis =>
      rw [cut.joined, List.flatMap_cons, List.cons_append,
        signAt_cons_iff (cut.unsigned part List.mem_cons_self) cut.closed_of_ne_nil]
      constructor
      · rintro (⟨rfl, rfl⟩ | ⟨more, rfl, inRest⟩)
        · exact ⟨[], part, rest, rfl, rfl, rfl⟩
        · obtain ⟨earlier, found, later, shape, rfl, rfl⟩ :=
            (inductionHypothesis cut.tail more).mp inRest
          exact ⟨part :: earlier, found, later, by rw [shape]; rfl, rfl, rfl⟩
      · rintro ⟨earlier, found, later, shape, rfl, rfl⟩
        cases earlier with
        | nil =>
            cases shape
            exact Or.inl ⟨rfl, rfl⟩
        | cons first others =>
            obtain ⟨rfl, shapeRest⟩ := List.cons_eq_cons.mp shape
            exact Or.inr ⟨others.flatMap (Mark.tagSign :: ·), rfl,
              (inductionHypothesis cut.tail _).mpr ⟨others, found, later, shapeRest, rfl, rfl⟩⟩

/-- The parts are the pieces that scanning comes upon. -/
theorem pieces_eq
    (cut : Parts text parts) :
    pieces (Mark.ofText .outside text) = ([], parts.map (Mark.ofText .outside)) := by
  induction parts generalizing text with
  | nil =>
      rw [cut.joined]
      rfl
  | cons part rest inductionHypothesis =>
      have later := inductionHypothesis cut.tail
      have unsigned := (unsigned_iff part).mpr (cut.unsigned part List.mem_cons_self)
      have starts : Mark.startsTag ⟨Mark.tagSign, false⟩ = true := rfl
      have marked :
          Mark.ofText .outside text =
            ⟨Mark.tagSign, false⟩ ::
              (Mark.ofText .outside part ++
                Mark.ofText .outside (rest.flatMap (Mark.tagSign :: ·))) := by
        rw [cut.joined, List.flatMap_cons, List.cons_append]
        by_cases goesOn : rest.flatMap (Mark.tagSign :: ·) = []
        · rw [goesOn, List.append_nil]
          exact (List.append_nil (⟨Mark.tagSign, false⟩ :: Mark.ofText .outside part)).symm
        · have split := Mark.ofText_append .outside part (rest.flatMap (Mark.tagSign :: ·))
          rw [cut.closed_of_ne_nil goesOn] at split
          rw [← split]
          rfl
      rw [marked, pieces_cons_of_startsTag starts, pieces_append unsigned, later,
        List.append_nil, List.map_cons]

theorem squash_ofPart_length
    {part : Text}
    (filled : Filled part) :
    1 < (squash (ofPart part)).length := by
  obtain ⟨character, member, notBlank⟩ := filled
  have kept : character ∈ squash part := List.mem_filter.mpr ⟨member, by simp [notBlank]⟩
  have positive := List.length_pos_of_mem kept
  have shape : squash (Mark.tagSign :: part) = Mark.tagSign :: squash part := rfl
  rw [squash_ofPart, shape, List.length_cons]
  omega

/-- Parts that hold something are all scanned. -/
theorem scan_eq
    (cut : Parts text parts)
    (filled : ∀ part ∈ parts, Filled part) :
    scan text = parts.map ofPart := by
  have scanned : scan text = (parts.map ofPart).filter (· != [Mark.tagSign]) := by
    rw [scan, cut.pieces_eq, List.map_map]
    rfl
  rw [scanned, List.filter_eq_self]
  intro tag member
  obtain ⟨part, partMember, rfl⟩ := List.mem_map.mp member
  apply bne_iff_ne.mpr
  intro isSign
  have long := squash_ofPart_length (filled part partMember)
  rw [isSign] at long
  exact absurd long (by decide)

theorem squash_eq
    (cut : Parts text parts) :
    squash (parts.map ofPart).flatten = squash text := by
  rw [squash_flatten_map_ofPart, ← cut.joined]

end Parts

/-- Whether a text is empty, or starts with a sign and holds something between each of
its signs and the next one or the end. -/
def WellSigned (text : Text) : Prop :=
  text = [] ∨
    text.head? = some Mark.tagSign ∧
      ∀ front behind, SignAt text front behind →
        ∃ before character rest, behind = before ++ character :: rest ∧
          isBlank character = false ∧
          ∀ inner outer, SignAt behind inner outer → before.length < inner.length

theorem Parts.wellSigned
    {text : Text} {parts : List Text}
    (cut : Parts text parts)
    (filled : ∀ part ∈ parts, Filled part) :
    WellSigned text := by
  cases parts with
  | nil =>
      exact Or.inl cut.joined
  | cons first others =>
      refine Or.inr ⟨by rw [cut.joined]; rfl, ?_⟩
      intro front behind signAt
      obtain ⟨earlier, part, later, shape, rfl, rfl⟩ := (cut.signAt_iff front behind).mp signAt
      have member : part ∈ first :: others := by simp [shape]
      obtain ⟨character, inPart, notBlank⟩ := filled part member
      obtain ⟨before, rest, rfl⟩ := List.append_of_mem inPart
      refine ⟨before, character, rest ++ later.flatMap (Mark.tagSign :: ·), by simp,
        notBlank, ?_⟩
      intro inner outer isSign
      obtain ⟨more, rfl, _⟩ := isSign.exists_of_unsigned (cut.unsigned _ member)
      simp only [List.length_append, List.length_cons]
      omega

/-- The parts of a text whose signs are followed by something. -/
theorem WellSigned.exists_parts
    {text : Text}
    (wellSigned : WellSigned text) :
    ∃ parts, Parts text parts ∧ ∀ part ∈ parts, Filled part := by
  rcases wellSigned with rfl | ⟨isFirst, followed⟩
  · exact ⟨[], ⟨rfl, by simp, .nil⟩, by simp⟩
  · obtain ⟨before, parts, shape, unsigned, beforeUnsigned, _, _, closed⟩ :=
      exists_pieces .outside text
    have joined := joined_of_pieces shape
    have nothingBefore : before = [] := by
      cases before with
      | nil =>
          rfl
      | cons first others =>
          rw [joined] at isFirst
          cases isFirst
          exact absurd (beforeUnsigned ⟨Mark.tagSign, false⟩ List.mem_cons_self) (by decide)
    rw [nothingBefore, List.nil_append] at joined
    have cut : Parts text parts :=
      { joined := joined
        unsigned := fun part member => (unsigned_iff part).mp (unsigned part member)
        closed := closed }
    refine ⟨parts, cut, ?_⟩
    intro part member
    obtain ⟨earlier, later, split⟩ := List.append_of_mem member
    have signAt := (cut.signAt_iff _ _).mpr ⟨earlier, part, later, split, rfl, rfl⟩
    obtain ⟨before, character, rest, behindSplit, notBlank, inFront⟩ := followed _ _ signAt
    have inPart : before.length < part.length := by
      cases later with
      | nil =>
          have lengths := congrArg List.length behindSplit
          simp only [List.flatMap_nil, List.append_nil, List.length_append,
            List.length_cons] at lengths
          omega
      | cons next others =>
          rw [split] at closed
          have partClosed : Quoting.after .outside part = .outside :=
            (List.pairwise_cons.mp (List.pairwise_append.mp closed).2.1).1 next List.mem_cons_self
          exact inFront part _ ⟨rfl, partClosed⟩
    have placed := congrArg (·[before.length]?) behindSplit
    simp only [List.getElem?_append_left inPart,
      List.getElem?_append_right (Nat.le_refl before.length), Nat.sub_self,
      List.getElem?_cons_zero] at placed
    exact ⟨character, List.mem_of_getElem? placed, notBlank⟩

/-- Tags that account for all characters of a text are cut from it without a rest. -/
theorem exists_parts_of_complete
    {text : Text}
    (tight : StartsTight text)
    (complete : squash (scan text).flatten = squash text) :
    ∃ parts, Parts text parts ∧ ∀ part ∈ parts, Filled part := by
  obtain ⟨blanks, parts, allBlank, joined, _, _, closed, unsigned, kept⟩ :=
    exists_parts complete
  have noBlanks : blanks = [] := by
    cases blanks with
    | nil =>
        rfl
    | cons first others =>
        have notBlank : isBlank first = false := tight first (by rw [joined]; rfl)
        rw [allBlank first List.mem_cons_self] at notBlank
        cases notBlank
  rw [noBlanks, List.nil_append] at joined
  refine ⟨parts, ⟨joined, fun part member => (unsigned_iff part).mp (unsigned part member),
    closed⟩, ?_⟩
  intro part member
  by_cases filled : Filled part
  · exact filled
  · have allGaps : ∀ character ∈ part, isBlank character = true := by
      intro character inPart
      cases blank : isBlank character with
      | true =>
          rfl
      | false =>
          exact absurd ⟨character, inPart, blank⟩ filled
    have isSign : ofPart part = [Mark.tagSign] := by
      rw [ofPart, collapse_gaps false (Mark.ofText_blanks allGaps).1]
    exact absurd isSign (kept _ (List.mem_map_of_mem member))

/-! ## Gaps between the words of a tag -/

def chunks (marks : List Mark) : List (List Mark) :=
  (marks.splitOnP Mark.isGap).filter fun chunk => !chunk.isEmpty

def joinedChunks (marks : List Mark) : Text :=
  ([' '] : Text).intercalate ((chunks marks).map (List.map Mark.character))

/-- A text whose gaps outside quoted strings are single spaces, with none at its ends. -/
def respaced (text : Text) : Text :=
  joinedChunks (Mark.ofText .outside text)

theorem chunks_append_cons
    {gap : Mark} (isGap : gap.isGap = true) (front rest : List Mark) :
    chunks (front ++ gap :: rest) = chunks front ++ chunks rest := by
  unfold chunks
  rw [List.splitOnP_append_cons front rest isGap, List.filter_append]

theorem chunks_singleton
    {mark : Mark} (kept : mark.isGap = false) :
    chunks [mark] = [[mark]] := by
  simp [chunks, List.splitOnP_cons_eq_if_modifyHead, kept]

theorem exists_chunks_cons
    {mark : Mark} (kept : mark.isGap = false) (rest : List Mark) :
    ∃ chunk others, chunks (mark :: rest) = (mark :: chunk) :: others ∧
      ∀ first : Mark, first.isGap = false →
        chunks (first :: mark :: rest) = (first :: mark :: chunk) :: others := by
  obtain ⟨chunk, others, shape⟩ :=
    List.exists_cons_of_ne_nil (List.splitOnP_ne_nil (p := Mark.isGap) rest)
  refine ⟨chunk, others.filter fun other => !other.isEmpty, ?_, ?_⟩
  · simp [chunks, List.splitOnP_cons_eq_if_modifyHead, kept, shape]
  · intro first firstKept
    simp [chunks, List.splitOnP_cons_eq_if_modifyHead, kept, firstKept, shape]

theorem intercalate_space_cons
    (word : Text) (words : List Text) :
    ([' '] : Text).intercalate (word :: words) =
      word ++
        if words = [] then [] else CodePoint.scalar ' ' :: ([' '] : Text).intercalate words := by
  cases words with
  | nil =>
      simp [List.intercalate]
  | cons next others =>
      rw [List.intercalate_cons_cons, if_neg (List.cons_ne_nil _ _), List.append_assoc]
      rfl

/-- Collapsing writes a space in front of each chunk but the first. -/
theorem collapse_eq_joinedChunks
    (marks : List Mark) :
    (∀ mark : Mark, mark.isGap = false →
      joinedChunks (mark :: marks) = mark.character :: collapse false marks) ∧
    collapse true marks =
      if chunks marks = [] then [] else CodePoint.scalar ' ' :: joinedChunks marks := by
  induction marks with
  | nil =>
      refine ⟨?_, rfl⟩
      intro mark kept
      simp [joinedChunks, chunks_singleton kept, List.intercalate, collapse]
  | cons next rest inductionHypothesis =>
      obtain ⟨joined, spaced⟩ := inductionHypothesis
      by_cases isGap : next.isGap = true
      · have skipped := chunks_append_cons isGap [] rest
        constructor
        · intro mark kept
          have cut := chunks_append_cons isGap [mark] rest
          rw [chunks_singleton kept] at cut
          rw [joinedChunks, show mark :: next :: rest = [mark] ++ next :: rest from rfl, cut,
            collapse, if_pos isGap, spaced]
          simp [intercalate_space_cons, joinedChunks]
        · rw [collapse, if_pos isGap, spaced, joinedChunks, joinedChunks]
          rw [show next :: rest = [] ++ next :: rest from rfl, skipped]
          rfl
      · have kept : next.isGap = false := Bool.not_eq_true _ |>.mp isGap
        obtain ⟨chunk, others, shape, shapeCons⟩ := exists_chunks_cons kept rest
        have here := joined next kept
        constructor
        · intro mark markKept
          rw [collapse, if_neg isGap, if_neg Bool.false_ne_true, ← here, joinedChunks,
            joinedChunks, shape, shapeCons mark markKept]
          simp [intercalate_space_cons]
        · rw [collapse, if_neg isGap, if_pos rfl, ← here, shape, if_neg (List.cons_ne_nil _ _)]

theorem ofPart_eq_respaced
    (part : Text) :
    ofPart part = respaced (Mark.tagSign :: part) :=
  ((collapse_eq_joinedChunks (Mark.ofText .outside part)).1 ⟨Mark.tagSign, false⟩ rfl).symm

end Tags

/-! ## Declarations -/

namespace Field

/-- The first location tag, or nothing, and the other tags in their order. -/
inductive Located (isLocation : Text → Bool) : List Text → Text → List Text → Prop
  | missing {tags : List Text} :
      (∀ tag ∈ tags, isLocation tag = false) →
      Located isLocation tags [] tags
  | first {front behind : List Text} {location : Text} :
      (∀ tag ∈ front, isLocation tag = false) →
      isLocation location = true →
      Located isLocation (front ++ location :: behind) location (front ++ behind)

theorem located_iff
    {isLocation : Text → Bool} {tags others : List Text} {location : Text} :
    Located isLocation tags location others ↔
      location = (tags.find? isLocation).getD [] ∧ others = tags.eraseP isLocation := by
  constructor
  · intro located
    cases located with
    | missing noLocation =>
        have notFound : tags.find? isLocation = none := by
          simpa [List.find?_eq_none] using noLocation
        exact ⟨by rw [notFound]; rfl,
          (List.eraseP_of_forall_not (by simpa using noLocation)).symm⟩
    | @first front behind _ noLocation isFound =>
        have notIn : ∀ tag ∈ front, ¬ isLocation tag = true := by simpa using noLocation
        constructor
        · rw [List.find?_append, List.find?_eq_none.mpr notIn, List.find?_cons_of_pos isFound]
          rfl
        · rw [List.eraseP_append_right _ notIn, List.eraseP_cons_of_pos isFound]
  · rintro ⟨rfl, rfl⟩
    cases found : tags.find? isLocation with
    | none =>
        have notIn := List.find?_eq_none.mp found
        rw [List.eraseP_of_forall_not notIn]
        exact .missing (by simpa using notIn)
    | some location =>
        obtain ⟨isFound, front, behind, rfl, others⟩ := List.find?_eq_some_iff_append.mp found
        have notIn : ∀ tag ∈ front, ¬ isLocation tag = true := by simpa using others
        rw [List.eraseP_append_right _ notIn, List.eraseP_cons_of_pos isFound]
        exact .first (by simpa using notIn) isFound

theorem eq_ofTags_iff
    {locationPrefixes : List Text} {tags : List Text} {field : Field} :
    field = ofTags locationPrefixes field.name field.columnType tags ↔
      Located (startsWithAny locationPrefixes) tags field.location field.tags := by
  rw [located_iff]
  obtain ⟨name, columnType, location, others⟩ := field
  simp [ofTags]

variable {options : Options} {line : Text} {field : Field}

theorem parse_of_complete
    (options : Options)
    (hasType : line.strip.afterWord.firstWord ≠ [])
    (complete : squash (Tags.scan (tagPart line)).flatten = squash (tagPart line)) :
    parse options line =
      .ok (ofTags options.locationPrefixes line.strip.firstWord
        line.strip.afterWord.firstWord (Tags.scan (tagPart line))) := by
  have noRest :
      (line.strip.firstWord ++ line.strip.afterWord.firstWord ++
        (Tags.scan (tagPart line)).flatten).squash = line.strip.squash := by
    rw [squash_eq_firstWord_append line.strip, squash_eq_firstWord_append line.strip.afterWord,
      squash_append, squash_append, complete, List.append_assoc, tagPart]
  rw [tagPart] at noRest
  simp only [parse, noRest, tagPart]
  simp [hasType]

theorem parse_eq_error
    {malformed : Malformed}
    (failed : parse options line = .error malformed) :
    line.strip.afterWord.firstWord = [] ∧ malformed = .tooFewWords line.strip ∨
      line.strip.afterWord.firstWord ≠ [] ∧ malformed = .strayText line.strip := by
  simp only [parse] at failed
  split at failed
  · rename_i noType
    cases failed
    exact Or.inl ⟨by simpa using noType, rfl⟩
  · rename_i hasType
    split at failed
    · cases failed
      exact Or.inr ⟨by simpa using hasType, rfl⟩
    · cases failed

/-- The lines that are read as a declaration. -/
theorem parse_eq_ok_iff :
    parse options line = .ok field ↔
      ∃ remainder parts, Heads line field.name field.columnType remainder ∧
        Tags.Parts remainder parts ∧ (∀ part ∈ parts, Tags.Filled part) ∧
        Located (startsWithAny options.locationPrefixes) (parts.map Tags.ofPart)
          field.location field.tags := by
  constructor
  · intro parsed
    obtain ⟨hasType, complete, isField⟩ := parse_eq_ok parsed
    have heads := heads_of_type hasType
    obtain ⟨parts, cut, filled⟩ := Tags.exists_parts_of_complete heads.starts_tight
      (squash_scan_tagPart complete)
    have sameName : field.name = line.strip.firstWord := by rw [isField]; rfl
    have sameType : field.columnType = line.strip.afterWord.firstWord := by rw [isField]; rfl
    rw [← tagPart, cut.scan_eq filled, ← sameName, ← sameType] at isField
    rw [← sameName, ← sameType] at heads
    exact ⟨tagPart line, parts, heads, cut, filled, eq_ofTags_iff.mp isField⟩
  · rintro ⟨remainder, parts, heads, cut, filled, located⟩
    obtain ⟨readName, readType, readTags⟩ := heads.read
    have scanned := cut.scan_eq filled
    rw [← readTags] at scanned cut
    have hasType : line.strip.afterWord.firstWord ≠ [] := readType ▸ heads.type_word.1
    have complete : squash (Tags.scan (tagPart line)).flatten = squash (tagPart line) := by
      rw [scanned, cut.squash_eq]
    rw [parse_of_complete options hasType complete, scanned, readName, readType,
      ← eq_ofTags_iff.mpr located]

theorem exists_parse_iff
    {name columnType remainder : Text}
    (heads : Heads line name columnType remainder) :
    (∃ field, parse options line = .ok field) ↔ Tags.WellSigned remainder := by
  constructor
  · rintro ⟨field, parsed⟩
    obtain ⟨other, parts, otherHeads, cut, filled, _⟩ := parse_eq_ok_iff.mp parsed
    rw [← heads.read.2.2, otherHeads.read.2.2]
    exact cut.wellSigned filled
  · intro wellSigned
    obtain ⟨parts, cut, filled⟩ := wellSigned.exists_parts
    refine ⟨ofTags options.locationPrefixes name columnType (parts.map Tags.ofPart), ?_⟩
    exact parse_eq_ok_iff.mpr
      ⟨remainder, parts, heads, cut, filled, eq_ofTags_iff.mp rfl⟩

theorem parse_eq_error_iff
    (malformed : Malformed) :
    parse options line = .error malformed ↔
      (words line).length < 2 ∧ malformed = .tooFewWords line.strip ∨
        ∃ name columnType remainder, Heads line name columnType remainder ∧
          ¬ Tags.WellSigned remainder ∧ malformed = .strayText line.strip := by
  constructor
  · intro failed
    rcases parse_eq_error failed with ⟨noType, rfl⟩ | ⟨hasType, rfl⟩
    · exact Or.inl ⟨length_words_of_noType noType, rfl⟩
    · refine Or.inr ⟨_, _, _, heads_of_type hasType, ?_, rfl⟩
      have readable := @exists_parse_iff options line _ _ _ (heads_of_type hasType)
      rw [← readable]
      rintro ⟨field, parsed⟩
      rw [failed] at parsed
      cases parsed
  · rintro (⟨fewWords, rfl⟩ | ⟨name, columnType, remainder, heads, notSigned, rfl⟩)
    · by_cases hasType : line.strip.afterWord.firstWord = []
      · simp [parse, hasType]
      · rw [(heads_of_type hasType).words_eq] at fewWords
        simp only [List.length_cons] at fewWords
        omega
    · cases result : parse options line with
      | ok field =>
          exact absurd ((exists_parse_iff heads).mp ⟨field, result⟩) notSigned
      | error malformed =>
          rcases parse_eq_error result with ⟨noType, _⟩ | ⟨_, rfl⟩
          · exact absurd (heads.read.2.1.symm.trans noType) heads.type_word.1
          · rfl

/-- A line is read exactly when it has two words and what follows them is empty, or starts
with a sign and holds something behind each sign outside quoted strings.  Name and type are
the two words.  The tags are the parts at these signs with single spaces for their gaps; the
first one with a location prefix is the location tag.  Any other line is refused for its
lack of words or for what follows them. -/
theorem parse_exact
    (options : Options) (line : Text) :
    ((∃ field, parse options line = .ok field) ↔
      ∃ name columnType remainder, Heads line name columnType remainder ∧
        Tags.WellSigned remainder) ∧
    (∀ field, parse options line = .ok field ↔
      ∃ remainder parts, Heads line field.name field.columnType remainder ∧
        Tags.Parts remainder parts ∧ (∀ part ∈ parts, Tags.Filled part) ∧
        Located (startsWithAny options.locationPrefixes)
          (parts.map fun part => Tags.respaced (Mark.tagSign :: part))
          field.location field.tags) ∧
    ∀ malformed, parse options line = .error malformed ↔
      (words line).length < 2 ∧ malformed = .tooFewWords line.strip ∨
        ∃ name columnType remainder, Heads line name columnType remainder ∧
          ¬ Tags.WellSigned remainder ∧ malformed = .strayText line.strip := by
  refine ⟨⟨?_, ?_⟩, ?_, parse_eq_error_iff⟩
  · rintro ⟨field, parsed⟩
    obtain ⟨remainder, parts, heads, cut, filled, _⟩ := parse_eq_ok_iff.mp parsed
    exact ⟨_, _, _, heads, cut.wellSigned filled⟩
  · rintro ⟨name, columnType, remainder, heads, wellSigned⟩
    exact (exists_parse_iff heads).mpr wellSigned
  · intro field
    have sameTags : (fun part => Tags.respaced (Mark.tagSign :: part)) = Tags.ofPart :=
      funext fun part => (Tags.ofPart_eq_respaced part).symm
    rw [sameTags]
    exact parse_eq_ok_iff

end Field

end Tidy
