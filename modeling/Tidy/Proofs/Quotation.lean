import Tidy.Proofs.Reading

/-!
# String literals of aligned lines

The quoted strings of a line are its literals.  Alignment copies them where it reads tags,
but it cuts the name and the type at blanks, whether they are quoted or not.  A literal that
starts in the name is therefore kept only if the blanks behind the name already have the
width of their column.
-/

namespace Tidy

open Text

/-! ## Literals -/

namespace Quoting

/-- What remains of the open string up to its closing quote, and the literals behind it. -/
def strings (state : Quoting) : Text → Text × List Text
  | [] => ([], [])
  | character :: rest =>
      let (remaining, later) := strings (state.next character) rest
      if state.isOpen then (character :: remaining, later)
      else if isQuote character then ([], (character :: remaining) :: later)
      else ([], later)

end Quoting

/-- The quoted strings of a text, with their quotes. -/
def Text.literals (text : Text) : List Text :=
  (Quoting.strings .outside text).2

namespace Quoting

theorem strings_of_isOpen
    {state : Quoting}
    (isOpen : state.isOpen = true) (character : CodePoint) (rest : Text) :
    state.strings (character :: rest) =
      (character :: ((state.next character).strings rest).1,
        ((state.next character).strings rest).2) :=
  if_pos isOpen

theorem strings_of_isQuote
    {character : CodePoint}
    (quotes : isQuote character = true) (rest : Text) :
    strings .outside (character :: rest) =
      ([], (character :: (strings (.inside character) rest).1) ::
        (strings (.inside character) rest).2) := by
  simp [strings, isOpen, next, quotes]

theorem strings_outside
    (text : Text) :
    strings .outside text = ([], text.literals) := by
  cases text with
  | nil =>
      rfl
  | cons character rest =>
      by_cases quotes : isQuote character = true
      · rw [literals, strings_of_isQuote quotes]
      · simp [literals, strings, isOpen, quotes]

theorem strings_of_unquoted
    {character : CodePoint}
    (unquoted : isQuote character = false) (rest : Text) :
    strings .outside (character :: rest) = strings .outside rest := by
  rw [strings_outside, strings_outside]
  simp [literals, strings, isOpen, next, unquoted]

theorem strings_append_of_closed
    (state : Quoting) {front : Text}
    (closed : state.after front = .outside) (rest : Text) :
    state.strings (front ++ rest) =
      ((state.strings front).1, (state.strings front).2 ++ rest.literals) := by
  induction front generalizing state with
  | nil =>
      have isOutside : state = .outside := closed
      rw [isOutside]
      exact strings_outside rest
  | cons character others inductionHypothesis =>
      have shape := inductionHypothesis (state.next character) closed
      rw [List.cons_append]
      by_cases isOpen : state.isOpen = true
      · rw [strings_of_isOpen isOpen, strings_of_isOpen isOpen, shape]
      · have isOutside := eq_outside_of_not_isOpen (Bool.not_eq_true _ |>.mp isOpen)
        subst isOutside
        by_cases quotes : isQuote character = true
        · have opens : next .outside character = .inside character := if_pos quotes
          rw [opens] at shape
          rw [strings_of_isQuote quotes, strings_of_isQuote quotes, shape]
          rfl
        · have unquoted := Bool.not_eq_true _ |>.mp quotes
          have stays : next .outside character = .outside := if_neg quotes
          rw [stays] at shape
          rw [strings_of_unquoted unquoted, strings_of_unquoted unquoted, shape]

/-- An open string goes through the text, or the text opens the one that it leaves open. -/
theorem strings_append_of_isOpen
    (state : Quoting) {front : Text}
    (leavesOpen : (state.after front).isOpen = true) :
    (state.isOpen = true ∧
      ∀ rest, state.strings (front ++ rest) =
        (front ++ ((state.after front).strings rest).1, ((state.after front).strings rest).2)) ∨
    ∃ (remaining : Text) (literals : List Text) (opening : Text),
      ∀ rest, state.strings (front ++ rest) =
        (remaining,
          literals ++ (opening ++ ((state.after front).strings rest).1) ::
            ((state.after front).strings rest).2) := by
  induction front generalizing state with
  | nil =>
      exact Or.inl ⟨leavesOpen, fun _ => rfl⟩
  | cons character others inductionHypothesis =>
      have shape := inductionHypothesis (state.next character) leavesOpen
      by_cases isOpen : state.isOpen = true
      · rcases shape with ⟨_, through⟩ | ⟨remaining, literals, opening, opened⟩
        · left
          refine ⟨isOpen, fun rest => ?_⟩
          rw [List.cons_append, strings_of_isOpen isOpen, through]
          rfl
        · right
          refine ⟨character :: remaining, literals, opening, fun rest => ?_⟩
          rw [List.cons_append, strings_of_isOpen isOpen, opened]
          rfl
      · right
        have isOutside := eq_outside_of_not_isOpen (Bool.not_eq_true _ |>.mp isOpen)
        subst isOutside
        by_cases quotes : isQuote character = true
        · have opens : next .outside character = .inside character := if_pos quotes
          rw [opens] at shape
          rcases shape with ⟨_, through⟩ | ⟨remaining, literals, opening, opened⟩
          · refine ⟨[], [], character :: others, fun rest => ?_⟩
            rw [List.cons_append, strings_of_isQuote quotes, through, after_cons, opens]
            rfl
          · refine ⟨[], (character :: remaining) :: literals, opening, fun rest => ?_⟩
            rw [List.cons_append, strings_of_isQuote quotes, opened, after_cons, opens]
            rfl
        · have unquoted := Bool.not_eq_true _ |>.mp quotes
          have stays : next .outside character = .outside := if_neg quotes
          rw [stays] at shape
          rcases shape with ⟨impossible, _⟩ | ⟨remaining, literals, opening, opened⟩
          · cases impossible
          · refine ⟨remaining, literals, opening, fun rest => ?_⟩
            rw [List.cons_append, strings_of_unquoted unquoted, opened, after_cons, stays]

/-- Behind a text that leaves a string open everything depends on how that string goes on. -/
theorem strings_append_eq_iff
    (state : Quoting) {front : Text}
    (leavesOpen : (state.after front).isOpen = true) (rest other : Text) :
    state.strings (front ++ rest) = state.strings (front ++ other) ↔
      (state.after front).strings rest = (state.after front).strings other := by
  rcases strings_append_of_isOpen state leavesOpen with
    ⟨_, through⟩ | ⟨remaining, literals, opening, opened⟩
  · rw [through, through, Prod.ext_iff, Prod.ext_iff, List.append_cancel_left_eq]
  · rw [opened, opened, Prod.ext_iff, Prod.ext_iff]
    simp

/-- The blanks in an open string belong to it. -/
theorem strings_blanks_append
    {state : Quoting} {gap : Text}
    (opened : state.Opened)
    (isOpen : state.isOpen = true)
    (allBlank : ∀ character ∈ gap, isBlank character = true)
    (filled : gap ≠ []) (rest : Text) :
    state.strings (gap ++ rest) =
      (gap ++ (state.settled.strings rest).1, (state.settled.strings rest).2) := by
  induction gap generalizing state with
  | nil =>
      exact absurd rfl filled
  | cons character others inductionHypothesis =>
      obtain ⟨first, later⟩ := List.forall_mem_cons.mp allBlank
      rw [List.cons_append, strings_of_isOpen isOpen, next_of_blank opened first]
      by_cases isLast : others = []
      · rw [isLast]
        rfl
      · rw [inductionHypothesis opened.settled (state.isOpen_settled.trans isOpen) later isLast,
          settled_settled]
        rfl

end Quoting

namespace Text

theorem literals_append
    {front : Text}
    (closed : Quoting.after .outside front = .outside) (rest : Text) :
    literals (front ++ rest) = literals front ++ literals rest := by
  rw [literals, Quoting.strings_append_of_closed .outside closed]
  rfl

theorem literals_cons_of_unquoted
    {character : CodePoint}
    (unquoted : Quoting.isQuote character = false) (rest : Text) :
    literals (character :: rest) = literals rest := by
  rw [literals, Quoting.strings_of_unquoted unquoted]
  rfl

theorem literals_of_blank
    {blanks : Text}
    (allBlank : ∀ character ∈ blanks, isBlank character = true) :
    literals blanks = [] := by
  induction blanks with
  | nil =>
      rfl
  | cons character rest inductionHypothesis =>
      obtain ⟨first, later⟩ := List.forall_mem_cons.mp allBlank
      rw [literals_cons_of_unquoted (Quoting.isQuote_of_blank first), inductionHypothesis later]

theorem literals_blanks_append
    {blanks : Text}
    (allBlank : ∀ character ∈ blanks, isBlank character = true) (rest : Text) :
    literals (blanks ++ rest) = literals rest := by
  rw [literals_append (Mark.ofText_blanks allBlank).2, literals_of_blank allBlank, List.nil_append]

theorem literals_append_blanks
    {text blanks : Text}
    (allBlank : ∀ character ∈ blanks, isBlank character = true)
    (closed : Quoting.after .outside (text ++ blanks) = .outside) :
    literals (text ++ blanks) = literals text := by
  have closedFront : Quoting.after .outside text = .outside :=
    Quoting.after_of_append_blanks Quoting.opened_outside allBlank closed
  rw [literals_append closedFront, literals_of_blank allBlank, List.append_nil]

theorem literals_strip
    {text : Text}
    (closed : Quoting.after .outside text = .outside) :
    literals text.strip = literals text := by
  obtain ⟨before, behind, split, beforeBlank, behindBlank⟩ := exists_append_strip_append text
  rw [List.append_assoc] at split
  rw [split, Quoting.after_append, (Mark.ofText_blanks beforeBlank).2] at closed
  conv => rhs; rw [split]
  rw [literals_blanks_append beforeBlank, literals_append_blanks behindBlank closed]

theorem literals_eq_iff
    (text other : Text) :
    literals text = literals other ↔
      Quoting.strings .outside text = Quoting.strings .outside other := by
  rw [Quoting.strings_outside, Quoting.strings_outside, Prod.ext_iff]
  exact (and_iff_right rfl).symm

theorem literals_stripRight
    {text : Text}
    (closed : Quoting.after .outside text = .outside) :
    literals text.stripRight = literals text := by
  obtain ⟨blanks, split, allBlank⟩ := exists_stripRight_append text
  rw [split] at closed
  conv => rhs; rw [split]
  exact (literals_append_blanks allBlank closed).symm

end Text

/-! ## Tags -/

namespace Tags

/-- Collapsing the gaps outside quoted strings touches no literal. -/
theorem strings_collapse
    (gap : Bool) (state : Quoting) (part : Text)
    (gapOutside : gap = true → state = .outside) :
    state.strings (collapse gap (Mark.ofText state part)) = state.strings part := by
  induction part generalizing gap state with
  | nil =>
      rfl
  | cons character rest inductionHypothesis =>
      rw [Mark.ofText, collapse]
      by_cases isGap : Mark.isGap ⟨character, state.isOpen⟩ = true
      · obtain ⟨rfl, blank⟩ := Mark.outside_of_isGap isGap
        have stays := Quoting.next_outside_of_blank blank
        rw [if_pos isGap, stays, inductionHypothesis true .outside fun _ => rfl,
          Quoting.strings_of_unquoted (Quoting.isQuote_of_blank blank)]
      · have sameRest := inductionHypothesis false (state.next character) (by simp)
        have kept :
            state.strings (character :: collapse false (Mark.ofText (state.next character) rest)) =
              state.strings (character :: rest) := by
          simp only [Quoting.strings, sameRest]
        rw [if_neg isGap]
        cases gap with
        | true =>
            obtain rfl : state = .outside := gapOutside rfl
            rw [if_pos rfl, Quoting.strings_of_unquoted rfl]
            exact kept
        | false =>
            exact kept

theorem literals_ofPart
    (part : Text) :
    literals (ofPart part) = literals part := by
  have same := strings_collapse false .outside part fun _ => rfl
  rw [ofPart, literals_cons_of_unquoted rfl, literals, same]
  rfl

theorem literals_parts
    {parts : List Text}
    (closed : ∀ part ∈ parts, Quoting.after .outside part = .outside) :
    literals (parts.flatMap (Mark.tagSign :: ·)) = (parts.map ofPart).flatMap literals := by
  induction parts with
  | nil =>
      rfl
  | cons part rest inductionHypothesis =>
      obtain ⟨first, later⟩ := List.forall_mem_cons.mp closed
      have signClosed : Quoting.after .outside (Mark.tagSign :: part) = .outside := first
      rw [List.flatMap_cons, List.map_cons, List.flatMap_cons, literals_append signClosed,
        literals_cons_of_unquoted rfl, literals_ofPart, inductionHypothesis later]

theorem Written.after_eq
    {tag : Text}
    (written : Written tag) :
    Quoting.after .outside tag = .outside := by
  obtain ⟨_, _, _, closed⟩ := written
  exact closed

theorem Spaced.after_eq
    {tags : List Text} {text : Text}
    (spaced : Spaced tags text) :
    Quoting.after .outside text = .outside := by
  induction spaced with
  | blank allBlank =>
      exact (Mark.ofText_blanks allBlank).2
  | tag allBlank written _ inductionHypothesis =>
      rw [Quoting.after_append, (Mark.ofText_blanks allBlank).2, Quoting.after_append,
        written.after_eq, inductionHypothesis]

theorem Spaced.literals_eq
    {tags : List Text} {text : Text}
    (spaced : Spaced tags text) :
    literals text = tags.flatMap literals := by
  induction spaced with
  | blank allBlank =>
      exact literals_of_blank allBlank
  | tag allBlank written _ inductionHypothesis =>
      rw [literals_blanks_append allBlank, literals_append written.after_eq, inductionHypothesis,
        List.flatMap_cons]

end Tags

/-! ## Names and types -/

namespace Field

/-- Name and type with a single space between them. -/
def head (field : Field) : Text :=
  field.name ++ CodePoint.scalar ' ' :: field.columnType

variable {name columnType gap other : Text}

theorem after_gap
    (name columnType : Text)
    (gapBlank : ∀ character ∈ gap, isBlank character = true)
    (gapFilled : gap ≠ []) :
    Quoting.after .outside (name ++ (gap ++ columnType)) =
      Quoting.after .outside (name ++ CodePoint.scalar ' ' :: columnType) := by
  have opened := Quoting.opened_after name
  rw [Quoting.after_append, Quoting.after_append, Quoting.after_append, Quoting.after_cons,
    Quoting.after_blanks opened gapBlank gapFilled, Quoting.next_of_blank opened rfl]

/-- A gap behind a name that leaves a string open is a piece of one literal. -/
theorem exists_literals_gap
    (leavesOpen : (Quoting.after .outside name).isOpen = true) :
    ∃ (front : List Text) (opening : Text),
      ∀ gap rest, (∀ character ∈ gap, isBlank character = true) → gap ≠ [] →
        literals (name ++ (gap ++ rest)) =
          front ++
            (opening ++ (gap ++ ((Quoting.after .outside name).settled.strings rest).1)) ::
              ((Quoting.after .outside name).settled.strings rest).2 := by
  rcases Quoting.strings_append_of_isOpen .outside leavesOpen with
    ⟨impossible, _⟩ | ⟨_, front, opening, opened⟩
  · cases impossible
  · refine ⟨front, opening, ?_⟩
    intro gap rest gapBlank gapFilled
    rw [literals, opened, Quoting.strings_blanks_append (Quoting.opened_after name) leavesOpen
      gapBlank gapFilled]

/-- The literals of name and type depend on the gap between them exactly when it is
quoted. -/
theorem perm_literals_gap_iff
    (name columnType : Text)
    (gapBlank : ∀ character ∈ gap, isBlank character = true)
    (gapFilled : gap ≠ [])
    (otherBlank : ∀ character ∈ other, isBlank character = true)
    (otherFilled : other ≠ []) :
    (literals (name ++ (gap ++ columnType))).Perm (literals (name ++ (other ++ columnType))) ↔
      Quoting.after .outside name = .outside ∨ gap = other := by
  cases leavesOpen : (Quoting.after .outside name).isOpen with
  | false =>
      have closed := Quoting.eq_outside_of_not_isOpen leavesOpen
      rw [literals_append closed, literals_append closed, literals_blanks_append gapBlank,
        literals_blanks_append otherBlank]
      exact ⟨fun _ => Or.inl closed, fun _ => List.Perm.refl _⟩
  | true =>
      obtain ⟨front, opening, shape⟩ := exists_literals_gap leavesOpen
      have notClosed : ¬ Quoting.after .outside name = .outside := by
        intro closed
        rw [closed] at leavesOpen
        cases leavesOpen
      rw [shape gap _ gapBlank gapFilled, shape other _ otherBlank otherFilled,
        List.perm_append_left_iff, ← List.singleton_append,
        ← List.singleton_append (x := opening ++ (other ++ _)),
        List.perm_append_right_iff, List.singleton_perm_singleton]
      simp [notClosed]

/-- Two texts that start with blanks are the same when the blanks are, and what follows. -/
theorem blanks_append_cons_inj
    {character : CodePoint} {rest otherRest : Text}
    (gapBlank : ∀ character ∈ gap, isBlank character = true)
    (otherBlank : ∀ character ∈ other, isBlank character = true)
    (filled : isBlank character = false) :
    gap ++ character :: rest = other ++ character :: otherRest ↔
      gap = other ∧ rest = otherRest := by
  constructor
  · intro same
    have blanks := congrArg (List.takeWhile isBlank) same
    rw [List.takeWhile_append_of_pos gapBlank, List.takeWhile_append_of_pos otherBlank,
      List.takeWhile_cons_of_neg (by simp [filled]), List.takeWhile_cons_of_neg (by simp [filled]),
      List.append_nil, List.append_nil] at blanks
    subst blanks
    exact ⟨rfl, List.tail_eq_of_cons_eq (List.append_cancel_left same)⟩
  · rintro ⟨rfl, rfl⟩
    rfl

/-- A string that is open behind name and type is the same when the gap between them is, if it
is quoted, and when the string goes on in the same way. -/
theorem literals_head_eq_iff
    (typeWord : IsWord columnType)
    (gapBlank : ∀ character ∈ gap, isBlank character = true)
    (gapFilled : gap ≠ [])
    (otherBlank : ∀ character ∈ other, isBlank character = true)
    (otherFilled : other ≠ [])
    (leavesOpen :
      (Quoting.after .outside (name ++ CodePoint.scalar ' ' :: columnType)).isOpen = true)
    (rest otherRest : Text) :
    literals (name ++ (gap ++ (columnType ++ rest))) =
        literals (name ++ (other ++ (columnType ++ otherRest))) ↔
      (Quoting.after .outside name = .outside ∨ gap = other) ∧
        (Quoting.after .outside (name ++ CodePoint.scalar ' ' :: columnType)).strings rest =
          (Quoting.after .outside (name ++ CodePoint.scalar ' ' :: columnType)).strings
            otherRest := by
  have opens := Quoting.opened_after name
  rw [Quoting.after_append, Quoting.after_cons, Quoting.next_of_blank opens rfl] at leavesOpen ⊢
  cases nameOpen : (Quoting.after .outside name).isOpen with
  | false =>
      have closed := Quoting.eq_outside_of_not_isOpen nameOpen
      rw [closed] at leavesOpen ⊢
      rw [literals_append closed, literals_append closed, literals_blanks_append gapBlank,
        literals_blanks_append otherBlank, List.append_cancel_left_eq, literals_eq_iff,
        and_iff_right (Or.inl rfl)]
      exact Quoting.strings_append_eq_iff .outside leavesOpen rest otherRest
  | true =>
      have notClosed : ¬ Quoting.after .outside name = .outside := by
        intro closed
        rw [closed] at nameOpen
        cases nameOpen
      obtain ⟨front, opening, shape⟩ := exists_literals_gap nameOpen
      have goesOn := Quoting.strings_append_eq_iff (Quoting.after .outside name).settled leavesOpen
        rest otherRest
      obtain ⟨character, others, rfl⟩ := List.exists_cons_of_ne_nil typeWord.1
      have filled := typeWord.2 character List.mem_cons_self
      have settledOpen : (Quoting.after .outside name).settled.isOpen = true :=
        (Quoting.isOpen_settled _).trans nameOpen
      rw [shape gap _ gapBlank gapFilled, shape other _ otherBlank otherFilled, ← goesOn,
        List.cons_append, List.cons_append, Quoting.strings_of_isOpen settledOpen,
        Quoting.strings_of_isOpen settledOpen, List.append_cancel_left_eq, List.cons_eq_cons,
        List.append_cancel_left_eq, blanks_append_cons_inj gapBlank otherBlank filled,
        or_iff_right notClosed, Prod.ext_iff, List.cons_eq_cons, and_iff_right rfl, and_assoc]

theorem Cut.literals_eq
    {line before between behind : Text} {field : Field} {parts : List Text}
    (cut : Cut line field before between behind parts)
    (closed : Quoting.after .outside line = .outside)
    (headClosed : Quoting.after .outside field.head = .outside) :
    Quoting.after .outside (tagPart line) = .outside ∧
      literals line =
        literals (field.name ++ (nameGap line ++ field.columnType)) ++
          (Tags.scan (tagPart line)).flatMap literals := by
  have regrouped :
      line =
        before ++ ((field.name ++ (nameGap line ++ field.columnType)) ++
          (between ++ (tagPart line ++ behind))) := by
    rw [cut.tagPart_eq]
    simpa only [List.append_assoc] using cut.line_eq
  have headAfter :
      Quoting.after .outside (field.name ++ (nameGap line ++ field.columnType)) = .outside :=
    (after_gap field.name field.columnType cut.gap_blank cut.gap_ne_nil).trans headClosed
  have tailClosed : Quoting.after .outside (tagPart line ++ behind) = .outside := by
    have whole := congrArg (Quoting.after .outside) regrouped
    rw [closed, Quoting.after_append, (Mark.ofText_blanks cut.before_blank).2,
      Quoting.after_append, headAfter, Quoting.after_append,
      (Mark.ofText_blanks cut.between_blank).2] at whole
    exact whole.symm
  have tagsClosed : Quoting.after .outside (tagPart line) = .outside :=
    Quoting.after_of_append_blanks Quoting.opened_outside cut.behind_blank tailClosed
  refine ⟨tagsClosed, ?_⟩
  conv => lhs; rw [regrouped]
  rw [literals_blanks_append cut.before_blank, literals_append headAfter,
    literals_blanks_append cut.between_blank, literals_append_blanks cut.behind_blank tailClosed,
    cut.scan_eq, ← Tags.literals_parts (cut.closed tagsClosed), ← cut.tagPart_eq]

end Field

/-! ## Blocks -/

namespace Block

def nameGap (block : Block) (field : Field) : Text :=
  List.replicate (block.nameWidth - field.name.length) (CodePoint.scalar ' ') ++ ([' '] : Text)

theorem isBlank_of_mem_nameGap
    (block : Block) (field : Field) :
    ∀ character ∈ block.nameGap field, isBlank character = true :=
  List.forall_mem_append.mpr ⟨isBlank_of_mem_replicate _, isBlank_of_mem_space⟩

theorem nameGap_ne_nil
    (block : Block) (field : Field) :
    block.nameGap field ≠ [] := by
  simp [nameGap]

theorem literals_layOut
    {block : Block} {field : Field}
    (spaces : ∀ character ∈ block.indent, character = ' ')
    (written : ∀ tag ∈ field.writtenTags, Tags.Written tag)
    (headClosed : Quoting.after .outside field.head = .outside) :
    literals (block.layOut field).stripRight =
      literals (field.name ++ (block.nameGap field ++ field.columnType)) ++
        field.writtenTags.flatMap literals := by
  have indentBlank := isBlank_of_mem_indent spaces
  have spaced := block.spaced_layOutTags written
  have headAfter :
      Quoting.after .outside (field.name ++ (block.nameGap field ++ field.columnType)) =
        .outside :=
    (Field.after_gap field.name field.columnType (block.isBlank_of_mem_nameGap field)
      (block.nameGap_ne_nil field)).trans headClosed
  have regrouped :
      block.layOut field =
        block.indent ++ ((field.name ++ (block.nameGap field ++ field.columnType)) ++
          block.layOutTags field) := by
    rw [layOut_eq, nameGap]
    simp only [List.append_assoc]
  have closed : Quoting.after .outside (block.layOut field) = .outside := by
    rw [regrouped, Quoting.after_append, (Mark.ofText_blanks indentBlank).2,
      Quoting.after_append, headAfter, spaced.after_eq]
  rw [literals_stripRight closed, regrouped, literals_blanks_append indentBlank,
    literals_append headAfter, spaced.literals_eq]

/-- A declaration whose name and type together close their strings. -/
theorem perm_literals_align_iff
    {options : Options} {block : Block} {line : Text} {field : Field}
    (spaces : ∀ character ∈ block.indent, character = ' ')
    (closed : Quoting.after .outside line = .outside)
    (parsed : Field.parse options line = .ok field)
    (headClosed : Quoting.after .outside field.head = .outside) :
    (literals (block.layOut field).stripRight).Perm (literals line) ↔
      Quoting.after .outside field.name = .outside ∨
        Field.nameGap line = block.nameGap field := by
  obtain ⟨before, between, behind, parts, cut⟩ := Field.exists_cut parsed
  obtain ⟨tagsClosed, literalsOfLine⟩ := cut.literals_eq closed headClosed
  have quotesClosed : Field.leavesQuoteOpen line = false := by
    rw [Field.leavesQuoteOpen, tagsClosed]
    rfl
  obtain ⟨_, _, written, _⟩ := Field.written_of_parse parsed quotesClosed
  have sameTags :
      (field.writtenTags.flatMap literals).Perm
        ((Tags.scan (Field.tagPart line)).flatMap literals) := by
    obtain ⟨_, _, rfl⟩ := Field.parse_eq_ok parsed
    apply List.Perm.flatMap_right
    exact Field.writtenTags_perm _ _ _ fun tag member =>
      (Tags.written_of_mem_scan tagsClosed member).ne_nil
  rw [literals_layOut spaces written headClosed, literalsOfLine,
    (sameTags.append_left _).congr_left, List.perm_append_right_iff,
    Field.perm_literals_gap_iff _ _ (isBlank_of_mem_nameGap block field)
      (nameGap_ne_nil block field) cut.gap_blank cut.gap_ne_nil,
    eq_comm (a := Block.nameGap _ _)]

/-- A declaration whose name and type leave a string open. -/
theorem literals_align_eq_iff
    {options : Options} {block : Block} {line : Text} {field : Field}
    (spaces : ∀ character ∈ block.indent, character = ' ')
    (closed : Quoting.after .outside line = .outside)
    (parsed : Field.parse options line = .ok field)
    (leavesOpen : (Quoting.after .outside field.head).isOpen = true) :
    literals (block.layOut field).stripRight = literals line ↔
      (Quoting.after .outside field.name = .outside ∨
          Field.nameGap line = block.nameGap field) ∧
        (Quoting.after .outside field.head).strings (block.layOutTags field).stripRight =
          (Quoting.after .outside field.head).strings (Field.behindType line) := by
  obtain ⟨nameWord, typeWord⟩ := Field.isWord_of_parse parsed
  obtain ⟨_, _, _, _, cut⟩ := Field.exists_cut parsed
  have isLine :
      line.strip =
        field.name ++ (Field.nameGap line ++ (field.columnType ++ Field.behindType line)) := by
    obtain ⟨_, _, rfl⟩ := Field.parse_eq_ok parsed
    exact Field.strip_eq_head_append line
  have tight :
      EndsTight (block.indent ++ (field.name ++ (block.nameGap field ++ field.columnType))) := by
    have tightFront := typeWord.endsTight.append_of_ne_nil
      (block.indent ++ field.name ++ block.nameGap field) typeWord.1
    simpa only [List.append_assoc] using tightFront
  have isAligned :
      (block.layOut field).stripRight =
        block.indent ++ (field.name ++ (block.nameGap field ++
          (field.columnType ++ (block.layOutTags field).stripRight))) := by
    have trimmed := stripRight_append_of_endsTight tight (block.layOutTags field)
    rw [layOut_eq]
    simpa only [nameGap, List.append_assoc] using trimmed
  rw [isAligned, literals_blanks_append (isBlank_of_mem_indent spaces), ← literals_strip closed,
    isLine, eq_comm (a := Field.nameGap line)]
  exact Field.literals_head_eq_iff typeWord (isBlank_of_mem_nameGap block field)
    (nameGap_ne_nil block field) cut.gap_blank cut.gap_ne_nil leavesOpen _ _

/-- The literals of an aligned line are those of the line, unless the line is a declaration
whose name or type ends within a string.  If only the name does, they are the same exactly
when the blanks behind the name are those that are written there.  If the type does, they
are the same in the same order exactly when blanks behind the name that are quoted are those
that are written there, and the string goes on behind the type as it did. -/
theorem literals_align
    (options : Options) {lines : List Text} {index : Nat} {line : Text}
    (isLine : lines[index]? = some line)
    (closed : Quoting.after .outside line = .outside) :
    ∃ aligned, (align options lines)[index]? = some aligned ∧
      (∀ malformed, Field.parse options line = .error malformed →
        literals aligned = literals line) ∧
      (∀ field, Field.parse options line = .ok field →
        Quoting.after .outside field.head = .outside →
        ((literals aligned).Perm (literals line) ↔
          Quoting.after .outside field.name = .outside ∨
            Field.nameGap line = (ofLines options lines).nameGap field)) ∧
      ∀ field, Field.parse options line = .ok field →
        (Quoting.after .outside field.head).isOpen = true →
        (literals aligned = literals line ↔
          (Quoting.after .outside field.name = .outside ∨
              Field.nameGap line = (ofLines options lines).nameGap field) ∧
            (Quoting.after .outside field.head).strings
                ((ofLines options lines).layOutTags field).stripRight =
              (Quoting.after .outside field.head).strings (Field.behindType line)) := by
  refine ⟨_, align_getElem? options isLine, ?_, ?_, ?_⟩
  · intro malformed failed
    rw [Entry.ofLine, failed]
    exact literals_stripRight closed
  · intro field parsed headClosed
    rw [Entry.ofLine, parsed]
    exact perm_literals_align_iff (indent_ofLines options lines) closed parsed headClosed
  · intro field parsed leavesOpen
    rw [Entry.ofLine, parsed]
    exact literals_align_eq_iff (indent_ofLines options lines) closed parsed leavesOpen

/-- A declaration with literals among its tags, and an annotation whose literal starts in
its name. -/
def mappedLines : List Text :=
  ["label   String  @default( \"two  spaces\" )   @map('l')",
   "@@map(\"my  table\")"]

theorem literals_align_tags :
    ∃ aligned, (align {} mappedLines)[0]? = some aligned ∧
      (literals aligned).Perm ["\"two  spaces\"", "'l'"] := by
  let field : Field :=
    { name := "label"
      columnType := "String"
      location := "@map('l')"
      tags := ["@default( \"two  spaces\" )"] }
  have parsed :
      Field.parse {} ("label   String  @default( \"two  spaces\" )   @map('l')" : Text) =
        .ok field := by
    decide +kernel
  obtain ⟨aligned, isAligned, _, ofDeclaration, _⟩ :=
    @literals_align {} mappedLines 0 _ rfl (by decide)
  exact ⟨aligned, isAligned, (ofDeclaration field parsed (by decide)).mpr (Or.inl (by decide))⟩

/-- The blanks in the literal of the annotation become a single one. -/
theorem literals_align_annotation :
    Quoting.after .outside ("@@map(\"my  table\")" : Text) = .outside ∧
      mappedLines[1]? = some ("@@map(\"my  table\")" : Text) ∧
      (align {} mappedLines)[1]? = some ("  @@map(\"my table\")" : Text) ∧
      ¬ (literals "  @@map(\"my table\")").Perm
        (literals "@@map(\"my  table\")") := by
  decide +kernel

end Block

end Tidy
