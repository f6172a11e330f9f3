import Tidy.Proofs.Quotation

/-!
# Comments of aligned lines

A comment starts at two slashes outside quoted strings.  Alignment does not know about
comments: one that stands behind a tag belongs to that tag and moves with it.  As long as
the tags keep their order, only the width of gaps changes, and the characters in front of
the comment stay in front of it.  When the location tag moves, they do so only if neither it
nor a tag that it passes has a comment, apart from coincidences.
-/

namespace Tidy

open Text

/-! ## Code and comments -/

namespace Quoting

def startsComment (state : Quoting) (character : CodePoint) (rest : Text) : Bool :=
  !state.isOpen && character == '/' && rest.head? == some (CodePoint.scalar '/')

def hasComment (state : Quoting) : Text → Bool
  | [] => false
  | character :: rest =>
      state.startsComment character rest || hasComment (state.next character) rest

def beforeComment (state : Quoting) : Text → Text
  | [] => []
  | character :: rest =>
      if state.startsComment character rest then []
      else character :: beforeComment (state.next character) rest

def code (state : Quoting) (text : Text) : Text :=
  (state.beforeComment text).squash

variable {state : Quoting} {character : CodePoint} {front rest : Text}

theorem code_cons_of_starts
    (starts : state.startsComment character rest = true) :
    state.code (character :: rest) = [] := by
  rw [code, beforeComment, if_pos starts]
  rfl

theorem code_cons_of_not_starts
    (goesOn : state.startsComment character rest = false) :
    state.code (character :: rest) = squash [character] ++ (state.next character).code rest := by
  rw [code, beforeComment, if_neg (by simp [goesOn]), ← List.singleton_append, squash_append]
  rfl

theorem startsComment_append
    (filled : front ≠ []) (rest : Text) :
    state.startsComment character (front ++ rest) = state.startsComment character front := by
  obtain ⟨first, others, rfl⟩ := List.exists_cons_of_ne_nil filled
  rfl

/-- A comment hides what follows it. -/
theorem code_append_of_hasComment
    (commented : state.hasComment front = true) (rest : Text) :
    state.code (front ++ rest) = state.code front := by
  induction front generalizing state with
  | nil =>
      cases commented
  | cons character others inductionHypothesis =>
      have filled : others ≠ [] := by
        intro isEmpty
        rw [isEmpty] at commented
        simp [hasComment, startsComment] at commented
      rw [List.cons_append]
      by_cases starts : state.startsComment character others = true
      · have stillStarts := (startsComment_append filled rest).trans starts
        rw [code_cons_of_starts stillStarts, code_cons_of_starts starts]
      · have goesOn := Bool.not_eq_true _ |>.mp starts
        have stillGoesOn := (startsComment_append filled rest).trans goesOn
        rw [hasComment, goesOn, Bool.false_or] at commented
        rw [code_cons_of_not_starts stillGoesOn, code_cons_of_not_starts goesOn,
          inductionHypothesis commented]

/-- Without a comment, all of the text is code, and what follows it is looked at alone. -/
theorem code_append_of_not_hasComment
    (uncommented : state.hasComment front = false)
    (bounded : rest.head? ≠ some (CodePoint.scalar '/')) :
    state.code (front ++ rest) = squash front ++ (state.after front).code rest := by
  induction front generalizing state with
  | nil =>
      rfl
  | cons character others inductionHypothesis =>
      obtain ⟨goesOn, later⟩ := Bool.or_eq_false_iff.mp uncommented
      have stillGoesOn : state.startsComment character (others ++ rest) = false := by
        by_cases isEmpty : others = []
        · rw [isEmpty, List.nil_append, startsComment, beq_false_of_ne bounded, Bool.and_false]
        · rw [startsComment_append isEmpty, goesOn]
      rw [List.cons_append, code_cons_of_not_starts stillGoesOn, inductionHypothesis later,
        after_cons, ← List.append_assoc, ← squash_append]
      rfl

theorem startsComment_of_blank
    (blank : isBlank character = true) (rest : Text) :
    state.startsComment character rest = false := by
  have noSlash : (character == '/') = false := by
    apply beq_false_of_ne
    intro isSlash
    rw [isSlash] at blank
    cases blank
  rw [startsComment, noSlash, Bool.and_false, Bool.false_and]

theorem code_blanks_append
    (state : Quoting) {gap : Text}
    (allBlank : ∀ character ∈ gap, isBlank character = true) (rest : Text) :
    state.code (gap ++ rest) = (state.after gap).code rest := by
  induction gap generalizing state with
  | nil =>
      rfl
  | cons character others inductionHypothesis =>
      obtain ⟨first, later⟩ := List.forall_mem_cons.mp allBlank
      have vanishes : squash [character] = [] := squash_of_blank (by simpa using first)
      rw [List.cons_append, code_cons_of_not_starts (startsComment_of_blank first _), vanishes,
        List.nil_append, inductionHypothesis _ later, after_cons]

end Quoting

/-! ## Texts that differ in the width of gaps -/

/-- Whether two texts have the same characters and differ in the width of their gaps, in
blanks in front of signs, and in blanks at the end. -/
inductive Respaced : Text → Text → Prop
  | blank {first second : Text} :
      (∀ character ∈ first, isBlank character = true) →
      (∀ character ∈ second, isBlank character = true) →
      Respaced first second
  | same {first second : Text} (character : CodePoint) :
      Respaced first second →
      Respaced (character :: first) (character :: second)
  | gap {gap other first second : Text} :
      (∀ character ∈ gap, isBlank character = true) → gap ≠ [] →
      (∀ character ∈ other, isBlank character = true) → other ≠ [] →
      Respaced first second →
      Respaced (gap ++ first) (other ++ second)
  | sign {gap other first second : Text} :
      (∀ character ∈ gap, isBlank character = true) →
      (∀ character ∈ other, isBlank character = true) →
      Respaced first second →
      Respaced (gap ++ Mark.tagSign :: first) (other ++ Mark.tagSign :: second)

namespace Respaced

variable {first second : Text}

theorem append_left
    (front : Text)
    (respaced : Respaced first second) :
    Respaced (front ++ first) (front ++ second) := by
  induction front with
  | nil =>
      exact respaced
  | cons character others inductionHypothesis =>
      exact .same character inductionHypothesis

theorem stripRight
    (text : Text) :
    Respaced text.stripRight text := by
  obtain ⟨blanks, split, allBlank⟩ := exists_stripRight_append text
  have atEnd : Respaced [] blanks := .blank (by simp) allBlank
  have whole := atEnd.append_left text.stripRight
  rw [List.append_nil, ← split] at whole
  exact whole

theorem ne_slash_of_gap
    {gap : Text}
    (allBlank : ∀ character ∈ gap, isBlank character = true)
    (filled : gap ≠ []) (rest : Text) :
    (gap ++ rest).head? ≠ some (CodePoint.scalar '/') := by
  obtain ⟨first, others, rfl⟩ := List.exists_cons_of_ne_nil filled
  intro isSlash
  cases isSlash
  cases allBlank '/' List.mem_cons_self

theorem ne_slash_of_blanks
    {blanks rest : Text}
    (allBlank : ∀ character ∈ blanks, isBlank character = true)
    (bounded : rest.head? ≠ some (CodePoint.scalar '/')) :
    (blanks ++ rest).head? ≠ some (CodePoint.scalar '/') := by
  by_cases isEmpty : blanks = []
  · rw [isEmpty]
    exact bounded
  · exact ne_slash_of_gap allBlank isEmpty rest

/-- Neither text starts with a slash, or both do. -/
theorem head?_iff
    (respaced : Respaced first second) :
    first.head? = some (CodePoint.scalar '/') ↔ second.head? = some (CodePoint.scalar '/') := by
  cases respaced with
  | blank firstBlank secondBlank =>
      have bounded : ([] : Text).head? ≠ some (CodePoint.scalar '/') := by simp
      have ofFirst := ne_slash_of_blanks firstBlank bounded
      have ofSecond := ne_slash_of_blanks secondBlank bounded
      rw [List.append_nil] at ofFirst ofSecond
      exact iff_of_false ofFirst ofSecond
  | same character _ =>
      exact Iff.rfl
  | gap gapBlank gapFilled otherBlank otherFilled _ =>
      exact iff_of_false (ne_slash_of_gap gapBlank gapFilled _)
        (ne_slash_of_gap otherBlank otherFilled _)
  | @sign gap other first second gapBlank otherBlank _ =>
      have bounded (rest : Text) : (Mark.tagSign :: rest).head? ≠ some (CodePoint.scalar '/') := by
        simp [show Mark.tagSign ≠ '/' by decide]
      exact iff_of_false (ne_slash_of_blanks gapBlank (bounded first))
        (ne_slash_of_blanks otherBlank (bounded second))

theorem next_sign
    {state : Quoting} {gap : Text}
    (opened : state.Opened)
    (allBlank : ∀ character ∈ gap, isBlank character = true) :
    (state.after gap).next Mark.tagSign = state.settled := by
  by_cases isEmpty : gap = []
  · rw [isEmpty]
    exact Quoting.next_of_plain opened rfl (by decide)
  · rw [Quoting.after_blanks opened allBlank isEmpty,
      Quoting.next_of_plain opened.settled rfl (by decide), Quoting.settled_settled]

/-- The code of a text does not depend on the width of its gaps. -/
theorem code_eq
    (respaced : Respaced first second) {state : Quoting}
    (opened : state.Opened) :
    state.code first = state.code second := by
  induction respaced generalizing state with
  | blank firstBlank secondBlank =>
      have ofFirst := state.code_blanks_append firstBlank []
      have ofSecond := state.code_blanks_append secondBlank []
      rw [List.append_nil] at ofFirst ofSecond
      rw [ofFirst, ofSecond]
      rfl
  | @same first second character respaced inductionHypothesis =>
      have sameStart :
          state.startsComment character first = state.startsComment character second := by
        have sameSlash :
            (first.head? == some (CodePoint.scalar '/')) =
              (second.head? == some (CodePoint.scalar '/')) :=
          Bool.eq_iff_iff.mpr (by simpa using respaced.head?_iff)
        rw [Quoting.startsComment, Quoting.startsComment, sameSlash]
      by_cases starts : state.startsComment character first = true
      · rw [Quoting.code_cons_of_starts starts,
          Quoting.code_cons_of_starts (sameStart.symm.trans starts)]
      · have goesOn := Bool.not_eq_true _ |>.mp starts
        rw [Quoting.code_cons_of_not_starts goesOn,
          Quoting.code_cons_of_not_starts (sameStart.symm.trans goesOn),
          inductionHypothesis (opened.next character)]
  | gap gapBlank gapFilled otherBlank otherFilled _ inductionHypothesis =>
      rw [state.code_blanks_append gapBlank, state.code_blanks_append otherBlank,
        Quoting.after_blanks opened gapBlank gapFilled,
        Quoting.after_blanks opened otherBlank otherFilled, inductionHypothesis opened.settled]
  | sign gapBlank otherBlank _ inductionHypothesis =>
      have noComment {anyState : Quoting} (rest : Text) :
          anyState.startsComment Mark.tagSign rest = false := by
        simp [Quoting.startsComment, show Mark.tagSign ≠ '/' by decide]
      rw [state.code_blanks_append gapBlank, state.code_blanks_append otherBlank,
        Quoting.code_cons_of_not_starts (noComment _),
        Quoting.code_cons_of_not_starts (noComment _), next_sign opened gapBlank,
        next_sign opened otherBlank, inductionHypothesis opened.settled]

end Respaced

/-! ## Declarations -/

namespace Tags

def spread (tags : List Text) : Text :=
  tags.flatMap (CodePoint.scalar ' ' :: ·)

theorem spread_cons
    (tag : Text) (rest : List Text) :
    spread (tag :: rest) = ([' '] : Text) ++ (tag ++ spread rest) :=
  rfl

/-- Collapsing the gaps of a part changes their width only; those at its end count with
what follows. -/
theorem respaced_collapse
    {rest written : Text} (pending : Text) (gap : Bool) (state : Quoting) (part : Text)
    (pendingBlank : ∀ character ∈ pending, isBlank character = true)
    (isPending : gap = true ↔ pending ≠ [])
    (follows :
      ∀ blanks, (∀ character ∈ blanks, isBlank character = true) →
        Respaced (blanks ++ rest) written) :
    Respaced (pending ++ (part ++ rest)) (collapse gap (Mark.ofText state part) ++ written) := by
  induction part generalizing gap state pending with
  | nil =>
      exact follows pending pendingBlank
  | cons character others inductionHypothesis =>
      rw [Mark.ofText, collapse]
      by_cases isGap : Mark.isGap ⟨character, state.isOpen⟩ = true
      · obtain ⟨_, blank⟩ := Mark.outside_of_isGap isGap
        rw [if_pos isGap]
        have longer := inductionHypothesis (pending ++ [character]) true
          (state.next character) (List.forall_mem_append.mpr ⟨pendingBlank, by simpa using blank⟩)
          (by simp)
        rw [List.append_assoc] at longer
        exact longer
      · have afterCharacter := Respaced.same character
          (inductionHypothesis [] false (state.next character) (by simp) (by simp))
        rw [if_neg isGap]
        cases gap with
        | true =>
            have spaced := Respaced.gap pendingBlank (isPending.mp rfl) isBlank_of_mem_space
              (List.cons_ne_nil _ _) afterCharacter
            exact spaced
        | false =>
            have nonePending : pending = [] := by
              simpa using isPending
            rw [nonePending]
            exact afterCharacter

theorem respaced_parts
    {between behind : Text} (parts : List Text)
    (betweenBlank : ∀ character ∈ between, isBlank character = true)
    (behindBlank : ∀ character ∈ behind, isBlank character = true) :
    Respaced (between ++ (parts.flatMap (Mark.tagSign :: ·) ++ behind))
      (spread (parts.map ofPart)) := by
  induction parts generalizing between with
  | nil =>
      exact .blank (List.forall_mem_append.mpr ⟨betweenBlank, behindBlank⟩) (by simp [spread])
  | cons part others inductionHypothesis =>
      have ofPart := respaced_collapse [] false .outside part (by simp) (by simp)
        fun blanks allBlank => inductionHypothesis allBlank
      rw [List.flatMap_cons, List.append_assoc]
      exact .sign betweenBlank isBlank_of_mem_space ofPart

theorem respaced_intercalate
    {gap : Text} (tags : List Text)
    (gapBlank : ∀ character ∈ gap, isBlank character = true)
    (gapFilled : gap ≠ []) :
    Respaced (gap ++ ([' '] : Text).intercalate tags) (spread tags) := by
  induction tags generalizing gap with
  | nil =>
      exact .blank (by simpa [List.intercalate] using gapBlank) (by simp [spread])
  | cons tag rest inductionHypothesis =>
      rw [spread_cons]
      apply Respaced.gap gapBlank gapFilled isBlank_of_mem_space (List.cons_ne_nil _ _)
      cases rest with
      | nil =>
          have single : ([' '] : Text).intercalate [tag] = tag ++ [] := by simp [List.intercalate]
          rw [single]
          exact .append_left tag (.blank (by simp) (by simp [spread]))
      | cons next others =>
          rw [List.intercalate_cons_cons, List.append_assoc]
          exact .append_left tag (inductionHypothesis isBlank_of_mem_space (List.cons_ne_nil _ _))

/-! ### The code of tags -/

variable {tag : Text} {front : List Text}

theorem head?_spread
    (tags : List Text) :
    (spread tags).head? ≠ some (CodePoint.scalar '/') := by
  cases tags with
  | nil =>
      simp [spread]
  | cons tag rest =>
      simp [spread]

theorem code_spread_cons
    (tag : Text) (rest : List Text) :
    Quoting.code .outside (spread (tag :: rest)) =
      Quoting.code .outside (tag ++ spread rest) :=
  Quoting.code_blanks_append .outside isBlank_of_mem_space _

theorem code_spread_cons_of_commented
    (commented : Quoting.hasComment .outside tag = true) (rest : List Text) :
    Quoting.code .outside (spread (tag :: rest)) = Quoting.code .outside tag := by
  rw [code_spread_cons, Quoting.code_append_of_hasComment commented]

theorem code_spread_cons_of_uncommented
    (uncommented : Quoting.hasComment .outside tag = false)
    (closed : Quoting.after .outside tag = .outside) (rest : List Text) :
    Quoting.code .outside (spread (tag :: rest)) =
      squash tag ++ Quoting.code .outside (spread rest) := by
  rw [code_spread_cons, Quoting.code_append_of_not_hasComment uncommented (head?_spread rest),
    closed]

theorem code_spread_append_of_uncommented
    (uncommented : ∀ tag ∈ front, Quoting.hasComment .outside tag = false)
    (closed : ∀ tag ∈ front, Quoting.after .outside tag = .outside) (rest : List Text) :
    Quoting.code .outside (spread (front ++ rest)) =
      squash front.flatten ++ Quoting.code .outside (spread rest) := by
  induction front with
  | nil =>
      rfl
  | cons tag others inductionHypothesis =>
      obtain ⟨tagUncommented, othersUncommented⟩ := List.forall_mem_cons.mp uncommented
      obtain ⟨tagClosed, othersClosed⟩ := List.forall_mem_cons.mp closed
      rw [List.cons_append, code_spread_cons_of_uncommented tagUncommented tagClosed,
        inductionHypothesis othersUncommented othersClosed, List.flatten_cons, squash_append,
        List.append_assoc]

theorem code_spread_append_of_commented
    (commented : ∃ tag ∈ front, Quoting.hasComment .outside tag = true)
    (closed : ∀ tag ∈ front, Quoting.after .outside tag = .outside) (rest : List Text) :
    Quoting.code .outside (spread (front ++ rest)) = Quoting.code .outside (spread front) := by
  induction front with
  | nil =>
      obtain ⟨_, member, _⟩ := commented
      cases member
  | cons tag others inductionHypothesis =>
      obtain ⟨tagClosed, othersClosed⟩ := List.forall_mem_cons.mp closed
      rw [List.cons_append]
      cases tagCommented : Quoting.hasComment .outside tag with
      | true =>
          rw [code_spread_cons_of_commented tagCommented,
            code_spread_cons_of_commented tagCommented]
      | false =>
          have othersCommented :
              ∃ other ∈ others, Quoting.hasComment .outside other = true := by
            simpa [tagCommented] using commented
          rw [code_spread_cons_of_uncommented tagCommented tagClosed,
            code_spread_cons_of_uncommented tagCommented tagClosed,
            inductionHypothesis othersCommented othersClosed]

/-- Moving a tag to the front keeps the code exactly when no comment moves and none is
passed.  Otherwise the tag, or those that it passes, change sides, and the code is the same
only if that of one commented tag happens to equal that of the others. -/
theorem perm_code_spread_iff
    {location : Text} (behind : List Text)
    (frontClosed : ∀ tag ∈ front, Quoting.after .outside tag = .outside)
    (frontFilled : squash front.flatten ≠ [])
    (locationFilled : squash location ≠ [])
    (locationEnds :
      Quoting.after .outside location = .outside ∨
        Quoting.hasComment .outside location = true) :
    (Quoting.code .outside (spread (location :: (front ++ behind)))).Perm
        (Quoting.code .outside (spread (front ++ location :: behind))) ↔
      (∀ tag ∈ front ++ [location], Quoting.hasComment .outside tag = false) ∨
        (∃ tag ∈ front, Quoting.hasComment .outside tag = true) ∧
          Quoting.hasComment .outside location = true ∧
          (Quoting.code .outside location).Perm (Quoting.code .outside (spread front)) := by
  by_cases frontCommented : ∃ tag ∈ front, Quoting.hasComment .outside tag = true
  · have notAll :
        ¬ ∀ tag ∈ front ++ [location], Quoting.hasComment .outside tag = false := by
      obtain ⟨tag, member, commented⟩ := frontCommented
      intro uncommented
      rw [uncommented tag (List.mem_append_left _ member)] at commented
      cases commented
    have hidden (rest : List Text) :=
      code_spread_append_of_commented frontCommented frontClosed rest
    cases commented : Quoting.hasComment .outside location with
    | true =>
        rw [code_spread_cons_of_commented commented, hidden, or_iff_right notAll]
        exact ⟨fun same => ⟨frontCommented, rfl, same⟩, fun coincide => coincide.2.2⟩
    | false =>
        have closed : Quoting.after .outside location = .outside := by
          simpa [commented] using locationEnds
        rw [code_spread_cons_of_uncommented commented closed, hidden, hidden]
        have longer :
            ¬ (squash location ++ Quoting.code .outside (spread front)).Perm
              (Quoting.code .outside (spread front)) := by
          intro same
          have lengths := same.length_eq
          rw [List.length_append] at lengths
          exact locationFilled (List.length_eq_zero_iff.mp (by omega))
        apply iff_of_false longer
        rintro (uncommented | ⟨_, impossible, _⟩)
        · exact notAll uncommented
        · cases impossible
  · have uncommented : ∀ tag ∈ front, Quoting.hasComment .outside tag = false := by
      simpa using frontCommented
    rw [code_spread_append_of_uncommented uncommented frontClosed]
    cases commented : Quoting.hasComment .outside location with
    | true =>
        rw [code_spread_cons_of_commented commented, code_spread_cons_of_commented commented]
        have shorter :
            ¬ (Quoting.code .outside location).Perm
              (squash front.flatten ++ Quoting.code .outside location) := by
          intro same
          have lengths := same.length_eq
          rw [List.length_append] at lengths
          exact frontFilled (List.length_eq_zero_iff.mp (by omega))
        apply iff_of_false shorter
        rintro (allUncommented | ⟨impossible, _⟩)
        · rw [allUncommented location (by simp)] at commented
          cases commented
        · exact frontCommented impossible
    | false =>
        have closed : Quoting.after .outside location = .outside := by
          simpa [commented] using locationEnds
        rw [code_spread_cons_of_uncommented commented closed,
          code_spread_append_of_uncommented uncommented frontClosed,
          code_spread_cons_of_uncommented commented closed]
        have swapped (others : Text) :
            (squash location ++ (squash front.flatten ++ others)).Perm
              (squash front.flatten ++ (squash location ++ others)) :=
          List.perm_append_comm_assoc ..
        apply iff_of_true (swapped _)
        exact Or.inl (List.forall_mem_append.mpr ⟨uncommented, by simpa using commented⟩)

end Tags

namespace Field

theorem Cut.code_eq
    {line before between behind : Text} {field : Field} {parts : List Text}
    (cut : Cut line field before between behind parts) :
    Quoting.code .outside line =
      Quoting.code .outside (field.head ++ Tags.spread (Tags.scan (tagPart line))) := by
  have respaced :
      Respaced
        (field.name ++ (nameGap line ++ (field.columnType ++ (between ++
          (parts.flatMap (Mark.tagSign :: ·) ++ behind)))))
        (field.name ++ (([' '] : Text) ++
          (field.columnType ++ Tags.spread (parts.map Tags.ofPart)))) :=
    .append_left _ (.gap cut.gap_blank cut.gap_ne_nil isBlank_of_mem_space (List.cons_ne_nil _ _)
      (.append_left _ (Tags.respaced_parts parts cut.between_blank cut.behind_blank)))
  conv => lhs; rw [cut.line_eq]
  rw [Quoting.code_blanks_append .outside cut.before_blank,
    (Mark.ofText_blanks cut.before_blank).2, respaced.code_eq Quoting.opened_outside,
    cut.scan_eq, head, List.append_assoc]
  rfl

theorem perm_code_head_iff
    {field : Field} (tags others : List Text)
    (ends :
      Quoting.after .outside field.head = .outside ∨
        Quoting.hasComment .outside field.head = true) :
    (Quoting.code .outside (field.head ++ Tags.spread tags)).Perm
        (Quoting.code .outside (field.head ++ Tags.spread others)) ↔
      Quoting.hasComment .outside field.head = true ∨
        (Quoting.code .outside (Tags.spread tags)).Perm
          (Quoting.code .outside (Tags.spread others)) := by
  cases commented : Quoting.hasComment .outside field.head with
  | true =>
      rw [Quoting.code_append_of_hasComment commented, Quoting.code_append_of_hasComment commented]
      simp
  | false =>
      have closed : Quoting.after .outside field.head = .outside := by
        simpa [commented] using ends
      rw [Quoting.code_append_of_not_hasComment commented (Tags.head?_spread tags),
        Quoting.code_append_of_not_hasComment commented (Tags.head?_spread others), closed,
        List.perm_append_left_iff]
      simp

/-- Whether the location tag of a declaration is moved in front of other tags. -/
structure Moves (field : Field) (line : Text) (front behind : List Text) : Prop where
  scan_eq : Tags.scan (tagPart line) = front ++ field.location :: behind
  tags_eq : field.tags = front ++ behind
  front_ne_nil : front ≠ []

theorem Cut.squash_of_mem_scan
    {line before between behind tag : Text} {field : Field} {parts : List Text}
    (cut : Cut line field before between behind parts)
    (member : tag ∈ Tags.scan (tagPart line)) :
    squash tag ≠ [] := by
  rw [cut.scan_eq] at member
  obtain ⟨part, _, rfl⟩ := List.mem_map.mp member
  rw [Tags.squash_ofPart]
  exact List.cons_ne_nil _ _

theorem writtenTags_of_location
    {field : Field} {others : List Text}
    (filled : squash field.location ≠ [])
    (tags_eq : field.tags = others) :
    field.writtenTags = field.location :: others := by
  have isLocation : field.location ≠ [] := by
    intro isEmpty
    rw [isEmpty] at filled
    exact filled rfl
  rw [writtenTags, if_neg isLocation, tags_eq]

/-- The tags are written in their order, or the location tag moves. -/
theorem Cut.unmoved_or_moves
    {options : Options} {line before between behind : Text} {field : Field} {parts : List Text}
    (cut : Cut line field before between behind parts)
    (parsed : parse options line = .ok field) :
    field.writtenTags = Tags.scan (tagPart line) ∨
      ∃ front others, field.Moves line front others := by
  have isField := (parse_eq_ok parsed).2.2
  rw [← tagPart] at isField
  rcases ofTags_cases options.locationPrefixes line.strip.firstWord
    line.strip.afterWord.firstWord (Tags.scan (tagPart line)) with
    ⟨noLocation, sameTags⟩ | ⟨front, others, scanned, tagsEq⟩
  · rw [← isField] at noLocation sameTags
    left
    rw [writtenTags, if_pos noLocation, sameTags]
  · rw [← isField] at scanned tagsEq
    by_cases isFirst : front = []
    · left
      rw [isFirst, List.nil_append] at scanned tagsEq
      have filled : squash field.location ≠ [] :=
        cut.squash_of_mem_scan (scanned ▸ List.mem_cons_self)
      rw [writtenTags_of_location filled tagsEq, scanned]
    · exact Or.inr ⟨front, others, scanned, tagsEq, isFirst⟩

/-- The tags that the location tag passes leave no string open, since it follows them. -/
theorem Cut.tags_of_moves
    {line before between behind : Text} {field : Field} {parts front others : List Text}
    (cut : Cut line field before between behind parts)
    (moves : Moves field line front others) :
    (∀ tag ∈ front, Quoting.after .outside tag = .outside) ∧
      ∀ tag ∈ front ++ [field.location], squash tag ≠ [] := by
  have closedIn :
      (Tags.scan (tagPart line)).Pairwise fun tag _ => Quoting.after .outside tag = .outside := by
    rw [cut.scan_eq, List.pairwise_map]
    simpa only [Tags.after_ofPart] using cut.closedIn
  rw [moves.scan_eq, List.pairwise_append] at closedIn
  refine ⟨fun tag member => closedIn.2.2 tag member field.location List.mem_cons_self, ?_⟩
  intro tag member
  apply cut.squash_of_mem_scan
  rw [moves.scan_eq, List.append_cons]
  exact List.mem_append_left others member

end Field

namespace Block

theorem respaced_layOutTags
    (block : Block) (field : Field) :
    Respaced (block.layOutTags field) (Tags.spread field.writtenTags) := by
  have gapBlank (count : Nat) :
      ∀ character ∈ List.replicate count (CodePoint.scalar ' ') ++ ([' '] : Text),
        isBlank character = true :=
    List.forall_mem_append.mpr ⟨isBlank_of_mem_replicate count, isBlank_of_mem_space⟩
  have gapFilled (count : Nat) :
      List.replicate count (CodePoint.scalar ' ') ++ ([' '] : Text) ≠ [] := by
    simp
  unfold Field.writtenTags layOutTags
  by_cases noLocation : field.location = []
  · rw [if_pos noLocation, noLocation, List.nil_append]
    have joined := Tags.respaced_intercalate field.tags
      (List.forall_mem_append.mpr
        ⟨gapBlank (block.typeWidth - field.columnType.length),
          gapBlank (block.tagWidth - ([] : Text).length)⟩)
      (by simp)
    simpa only [List.append_assoc] using joined
  · rw [if_neg noLocation, Tags.spread_cons]
    have joined := Respaced.gap (gapBlank (block.typeWidth - field.columnType.length))
      (gapFilled _) isBlank_of_mem_space (List.cons_ne_nil _ _)
      ((Tags.respaced_intercalate field.tags
        (gapBlank (block.tagWidth - field.location.length)) (gapFilled _)).append_left
          field.location)
    simpa only [List.append_assoc] using joined

theorem code_layOut
    {block : Block}
    (spaces : ∀ character ∈ block.indent, character = ' ') (field : Field) :
    Quoting.code .outside (block.layOut field).stripRight =
      Quoting.code .outside (field.head ++ Tags.spread field.writtenTags) := by
  have indentBlank := isBlank_of_mem_indent spaces
  have respaced :
      Respaced
        (field.name ++ (block.nameGap field ++ (field.columnType ++ block.layOutTags field)))
        (field.name ++ (([' '] : Text) ++ (field.columnType ++ Tags.spread field.writtenTags))) :=
    .append_left _ (.gap (block.isBlank_of_mem_nameGap field) (block.nameGap_ne_nil field)
      isBlank_of_mem_space (List.cons_ne_nil _ _)
      (.append_left _ (block.respaced_layOutTags field)))
  rw [(Respaced.stripRight _).code_eq Quoting.opened_outside, layOut_eq,
    Quoting.code_blanks_append .outside indentBlank, (Mark.ofText_blanks indentBlank).2]
  rw [← nameGap, respaced.code_eq Quoting.opened_outside, Field.head, List.append_assoc]
  rfl

/-- The characters in front of the comment of a line are in front of the comment of the
aligned line as well, unless the location tag moves.  If it does, they are so exactly when
its way lies behind a comment, or neither it nor a tag that it passes has a comment, or the
code of a commented location tag happens to be that of the commented tags that it passes. -/
theorem code_align
    (options : Options) {lines : List Text} {index : Nat} {line : Text}
    (isLine : lines[index]? = some line) :
    ∃ aligned, (align options lines)[index]? = some aligned ∧
      (∀ malformed, Field.parse options line = .error malformed →
        Quoting.code .outside aligned = Quoting.code .outside line) ∧
      ∀ field, Field.parse options line = .ok field →
        (field.writtenTags = Tags.scan (Field.tagPart line) ∧
            Quoting.code .outside aligned = Quoting.code .outside line ∨
          ∃ front behind, field.Moves line front behind) ∧
        ∀ front behind, field.Moves line front behind →
          (Quoting.after .outside field.head = .outside ∨
            Quoting.hasComment .outside field.head = true) →
          (Quoting.after .outside field.location = .outside ∨
            Quoting.hasComment .outside field.location = true) →
          ((Quoting.code .outside aligned).Perm (Quoting.code .outside line) ↔
            Quoting.hasComment .outside field.head = true ∨
              (∀ tag ∈ front ++ [field.location], Quoting.hasComment .outside tag = false) ∨
              (∃ tag ∈ front, Quoting.hasComment .outside tag = true) ∧
                Quoting.hasComment .outside field.location = true ∧
                (Quoting.code .outside field.location).Perm
                  (Quoting.code .outside (Tags.spread front))) := by
  refine ⟨_, align_getElem? options isLine, ?_, ?_⟩
  · intro malformed failed
    rw [Entry.ofLine, failed]
    exact (Respaced.stripRight line).code_eq Quoting.opened_outside
  · intro field parsed
    obtain ⟨before, between, behindTags, parts, cut⟩ := Field.exists_cut parsed
    have codeOfLine := cut.code_eq
    have codeOfAligned :
        Quoting.code .outside
            ((ofLines options lines).renderEntry (Entry.ofLine options line)) =
          Quoting.code .outside (field.head ++ Tags.spread field.writtenTags) := by
      rw [Entry.ofLine, parsed]
      exact code_layOut (indent_ofLines options lines) field
    rw [codeOfLine, codeOfAligned]
    constructor
    · rcases cut.unmoved_or_moves parsed with unmoved | moves
      · exact Or.inl ⟨unmoved, by rw [unmoved]⟩
      · exact Or.inr moves
    · intro front behind moves headEnds locationEnds
      obtain ⟨frontClosed, filled⟩ := cut.tags_of_moves moves
      have locationFilled := filled field.location (by simp)
      have frontFilled : squash front.flatten ≠ [] := by
        obtain ⟨first, others, rfl⟩ := List.exists_cons_of_ne_nil moves.front_ne_nil
        rw [List.flatten_cons, squash_append]
        exact List.append_ne_nil_of_left_ne_nil (filled first (by simp)) _
      rw [Field.perm_code_head_iff _ _ headEnds,
        Field.writtenTags_of_location locationFilled moves.tags_eq, moves.scan_eq,
        Tags.perm_code_spread_iff behind frontClosed frontFilled locationFilled locationEnds]

/-- Declarations whose location tag moves: away from a comment, with its own comment, and
out of a comment. -/
def commentedLines : List Text :=
  ["name String @unique @map('a//b') @db.Text // it's long",
   "id Int @id @map('id') // key",
   "id Int @id // key @map('id')"]

theorem code_align_uncommented :
    ∃ aligned, (align {} commentedLines)[0]? = some aligned ∧
      (Quoting.code .outside aligned).Perm ("nameString@unique@map('a//b')@db.Text" : Text) := by
  let field : Field :=
    { name := "name"
      columnType := "String"
      location := "@map('a//b')"
      tags := ["@unique", "@db.Text // it's long"] }
  have parsed :
      Field.parse {} ("name String @unique @map('a//b') @db.Text // it's long" : Text) =
        .ok field := by
    decide +kernel
  have moves :
      field.Moves ("name String @unique @map('a//b') @db.Text // it's long" : Text)
        ["@unique"] ["@db.Text // it's long"] :=
    { scan_eq := by decide +kernel
      tags_eq := rfl
      front_ne_nil := List.cons_ne_nil _ _ }
  obtain ⟨aligned, isAligned, _, ofDeclaration⟩ := @code_align {} commentedLines 0 _ rfl
  have kept := (ofDeclaration field parsed).2 _ _ moves (Or.inl (by decide)) (Or.inl (by decide))
  exact ⟨aligned, isAligned, kept.mpr (Or.inr (Or.inl (by decide +kernel)))⟩

/-- One tag gets behind a comment, and the text of another comment gets in front of one. -/
theorem code_align_commented :
    commentedLines[1]? = some ("id Int @id @map('id') // key" : Text) ∧
      (align {} commentedLines)[1]? = some ("  id   Int    @map('id') // key @id" : Text) ∧
      ¬ (Quoting.code .outside "  id   Int    @map('id') // key @id").Perm
        (Quoting.code .outside "id Int @id @map('id') // key") ∧
      commentedLines[2]? = some ("id Int @id // key @map('id')" : Text) ∧
      (align {} commentedLines)[2]? = some ("  id   Int    @map('id')        @id // key" : Text) ∧
      ¬ (Quoting.code .outside "  id   Int    @map('id')        @id // key").Perm
        (Quoting.code .outside "id Int @id // key @map('id')") := by
  decide +kernel

end Block

end Tidy
