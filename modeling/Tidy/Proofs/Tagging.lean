import Tidy.Proofs.Alignment

/-!
# Tags that are read again

A tag that has been written holds no sign, no wide gap and no open string beyond its
own first sign.  Tags of this kind with blanks between them are scanned as they are,
whatever their order, and scanning leaves such tags when no quoted string stays open.
-/

namespace Tidy

open Text

/-! ## Quoted strings -/

namespace Quoting

def after (state : Quoting) (text : Text) : Quoting :=
  text.foldl next state

/-- The states that can be reached: only a quote opens a string. -/
def Opened : Quoting → Prop
  | .outside => True
  | .inside quote => isQuote quote = true
  | .escaped quote => isQuote quote = true

theorem eq_outside_of_not_isOpen
    {state : Quoting}
    (closed : state.isOpen = false) :
    state = .outside := by
  cases state with
  | outside =>
      rfl
  | inside quote =>
      cases closed
  | escaped quote =>
      cases closed

theorem isBlank_of_isQuote
    {character : CodePoint}
    (quotes : isQuote character = true) :
    isBlank character = false := by
  unfold isQuote at quotes
  rw [Bool.or_eq_true, beq_iff_eq, beq_iff_eq] at quotes
  rcases quotes with rfl | rfl
  · rfl
  · rfl

theorem next_outside_of_blank
    {character : CodePoint}
    (blank : isBlank character = true) :
    next .outside character = .outside := by
  apply if_neg
  intro quotes
  rw [isBlank_of_isQuote quotes] at blank
  cases blank

theorem Opened.next
    {state : Quoting}
    (opened : state.Opened) (character : CodePoint) :
    (state.next character).Opened := by
  cases state with
  | outside =>
      by_cases quotes : isQuote character = true
      · rw [Quoting.next, if_pos quotes]
        exact quotes
      · rw [Quoting.next, if_neg quotes]
        trivial
  | inside quote =>
      by_cases escapes : (character == '\\') = true
      · rw [Quoting.next, if_pos escapes]
        exact opened
      · by_cases closes : (character == quote) = true
        · rw [Quoting.next, if_neg escapes, if_pos closes]
          trivial
        · rw [Quoting.next, if_neg escapes, if_neg closes]
          exact opened
  | escaped quote =>
      exact opened

/-- A string is closed by the quote that opened it. -/
theorem isBlank_of_closes
    {state : Quoting} {character : CodePoint}
    (opened : state.Opened)
    (isOpen : state.isOpen = true)
    (closes : state.next character = .outside) :
    isBlank character = false := by
  cases state with
  | outside =>
      cases isOpen
  | inside quote =>
      by_cases escapes : (character == '\\') = true
      · rw [Quoting.next, if_pos escapes] at closes
        cases closes
      · by_cases isQuote : (character == quote) = true
        · rw [beq_iff_eq.mp isQuote]
          exact isBlank_of_isQuote opened
        · rw [Quoting.next, if_neg escapes, if_neg isQuote] at closes
          cases closes
  | escaped quote =>
      cases closes

end Quoting

namespace Mark

theorem ofText_append
    (state : Quoting) (front rest : Text) :
    ofText state (front ++ rest) = ofText state front ++ ofText (state.after front) rest := by
  induction front generalizing state with
  | nil =>
      rfl
  | cons character others inductionHypothesis =>
      rw [List.cons_append, ofText, ofText, inductionHypothesis]
      rfl

/-- Blanks outside quoted strings are gaps, and what follows is outside as well. -/
theorem ofText_blanks
    {blanks : Text}
    (allBlank : ∀ character ∈ blanks, isBlank character = true) :
    (∀ mark ∈ ofText .outside blanks, mark.isGap = true) ∧
      Quoting.after .outside blanks = .outside := by
  induction blanks with
  | nil =>
      exact ⟨fun _ member => absurd member List.not_mem_nil, rfl⟩
  | cons character rest inductionHypothesis =>
      obtain ⟨first, later⟩ := List.forall_mem_cons.mp allBlank
      obtain ⟨restGaps, restOutside⟩ := inductionHypothesis later
      have stays := Quoting.next_outside_of_blank first
      constructor
      · rw [ofText, stays]
        exact List.forall_mem_cons.mpr ⟨first, restGaps⟩
      · rw [Quoting.after, List.foldl_cons, stays]
        exact restOutside

theorem outside_of_isGap
    {state : Quoting} {character : CodePoint}
    (gap : isGap ⟨character, state.isOpen⟩ = true) :
    state = .outside ∧ isBlank character = true := by
  obtain ⟨notQuoted, blank⟩ := Bool.and_eq_true_iff.mp gap
  exact ⟨Quoting.eq_outside_of_not_isOpen (Bool.not_eq_true' _ |>.mp notQuoted), blank⟩

theorem startsTag_of_isGap
    {mark : Mark}
    (gap : mark.isGap = true) :
    mark.startsTag = false := by
  obtain ⟨_, blank⟩ := Bool.and_eq_true_iff.mp gap
  by_cases isSign : mark.character = tagSign
  · rw [isSign] at blank
    cases blank
  · simp [startsTag, isSign]

end Mark

namespace Tags

/-! ## Cutting and collapsing -/

/-- Marks that start no tag stay in front of the first tag. -/
theorem pieces_append
    {marks : List Mark}
    (unsigned : ∀ mark ∈ marks, mark.startsTag = false)
    (rest : List Mark) :
    pieces (marks ++ rest) = (marks ++ (pieces rest).1, (pieces rest).2) := by
  induction marks with
  | nil =>
      rfl
  | cons mark others inductionHypothesis =>
      obtain ⟨first, later⟩ := List.forall_mem_cons.mp unsigned
      rw [List.cons_append, pieces_cons_of_not_startsTag (by simp [first]),
        inductionHypothesis later]
      rfl

theorem collapse_gaps
    (gap : Bool) {gaps : List Mark}
    (allGaps : ∀ mark ∈ gaps, mark.isGap = true) :
    collapse gap gaps = [] := by
  induction gaps generalizing gap with
  | nil =>
      rfl
  | cons mark others inductionHypothesis =>
      obtain ⟨first, later⟩ := List.forall_mem_cons.mp allGaps
      rw [collapse, if_pos first]
      exact inductionHypothesis true later

/-- Gaps at the end vanish. -/
theorem collapse_append_gaps
    (gap : Bool) (marks : List Mark) {gaps : List Mark}
    (allGaps : ∀ mark ∈ gaps, mark.isGap = true) :
    collapse gap (marks ++ gaps) = collapse gap marks := by
  induction marks generalizing gap with
  | nil =>
      exact collapse_gaps gap allGaps
  | cons mark others inductionHypothesis =>
      rw [List.cons_append, collapse, collapse, inductionHypothesis, inductionHypothesis]

/-- The pieces of a text are the marks of its parts between the signs of tags.  A sign
stands outside quoted strings, so only the last part can leave one open, and strings that
are closed at the end of the text are closed at the end of every part. -/
theorem exists_pieces
    (state : Quoting) (text : Text) :
    ∃ (before : Text) (parts : List Text),
      pieces (Mark.ofText state text) =
        (Mark.ofText state before, parts.map (Mark.ofText .outside)) ∧
      (∀ part ∈ parts, ∀ mark ∈ Mark.ofText .outside part, mark.startsTag = false) ∧
      (∀ mark ∈ Mark.ofText state before, mark.startsTag = false) ∧
      (state.after text = .outside →
        state.after before = .outside ∧ ∀ part ∈ parts, Quoting.after .outside part = .outside) ∧
      (∀ part ∈ parts, state.after before = .outside) ∧
      parts.Pairwise fun part _ => Quoting.after .outside part = .outside := by
  induction text generalizing state with
  | nil =>
      refine ⟨[], [], rfl, ?_, ?_, ?_, ?_, .nil⟩
      · intro part member
        cases member
      · intro mark member
        cases member
      · intro closed
        exact ⟨closed, fun part member => absurd member List.not_mem_nil⟩
      · intro part member
        cases member
  | cons character rest inductionHypothesis =>
      obtain ⟨before, parts, shape, partsUnsigned, beforeUnsigned, closes, closedBefore,
        closedIn⟩ := inductionHypothesis (state.next character)
      by_cases starts : Mark.startsTag ⟨character, state.isOpen⟩ = true
      · obtain ⟨notQuoted, isSign⟩ := Bool.and_eq_true_iff.mp starts
        have isOutside : state = .outside :=
          Quoting.eq_outside_of_not_isOpen (Bool.not_eq_true' _ |>.mp notQuoted)
        have isTagSign : character = Mark.tagSign := beq_iff_eq.mp isSign
        subst isOutside isTagSign
        refine ⟨[], before :: parts, ?_, ?_, ?_, ?_, fun _ _ => rfl, ?_⟩
        · have cutHere := pieces_cons_of_startsTag starts (Mark.ofText .outside rest)
          have stays : Quoting.next .outside Mark.tagSign = .outside := rfl
          rw [stays] at shape
          rw [shape] at cutHere
          exact cutHere
        · exact List.forall_mem_cons.mpr ⟨beforeUnsigned, partsUnsigned⟩
        · intro mark member
          cases member
        · intro closed
          exact ⟨rfl, List.forall_mem_cons.mpr (closes closed)⟩
        · exact List.pairwise_cons.mpr ⟨closedBefore, closedIn⟩
      · refine ⟨character :: before, parts, ?_, partsUnsigned, ?_, closes, closedBefore, closedIn⟩
        · rw [Mark.ofText, pieces_cons_of_not_startsTag starts, shape]
          rfl
        · exact List.forall_mem_cons.mpr ⟨by simpa using starts, beforeUnsigned⟩

/-- A collapsed part is marked like the part itself: it is collapsed already, it leaves
the same string open, and no sign gets in. -/
theorem collapse_again
    (gap : Bool) (state : Quoting) (part : Text)
    (gapOutside : gap = true → state = .outside) :
    let collapsed := collapse gap (Mark.ofText state part)
    collapse false (Mark.ofText state collapsed) = collapsed ∧
      state.after collapsed = state.after part ∧
      ((∀ mark ∈ Mark.ofText state part, mark.startsTag = false) →
        ∀ mark ∈ Mark.ofText state collapsed, mark.startsTag = false) := by
  induction part generalizing gap state with
  | nil =>
      exact ⟨rfl, rfl, fun unsigned => unsigned⟩
  | cons character rest inductionHypothesis =>
      simp only [Mark.ofText, collapse]
      by_cases isGap : Mark.isGap ⟨character, state.isOpen⟩ = true
      · obtain ⟨rfl, blank⟩ := Mark.outside_of_isGap isGap
        have stays := Quoting.next_outside_of_blank blank
        obtain ⟨settled, sameState, unsigned⟩ :=
          inductionHypothesis true .outside fun _ => rfl
        rw [if_pos isGap, stays]
        refine ⟨settled, ?_, ?_⟩
        · rw [sameState, Quoting.after, Quoting.after, List.foldl_cons, stays]
        · intro allUnsigned
          exact unsigned (List.forall_mem_cons.mp allUnsigned).2
      · obtain ⟨settled, sameState, unsigned⟩ :=
          inductionHypothesis false (state.next character) (by simp)
        have spaceIsGap : Mark.isGap ⟨' ', Quoting.outside.isOpen⟩ = true := rfl
        rw [if_neg isGap]
        cases gap with
        | true =>
            obtain rfl : state = .outside := gapOutside rfl
            have stays : Quoting.next .outside ' ' = .outside := rfl
            rw [if_pos rfl]
            refine ⟨?_, sameState, ?_⟩
            · simp only [Mark.ofText, collapse, stays]
              rw [if_pos spaceIsGap, if_neg isGap, if_pos trivial, settled]
            · intro allUnsigned
              obtain ⟨first, later⟩ := List.forall_mem_cons.mp allUnsigned
              exact List.forall_mem_cons.mpr
                ⟨Mark.startsTag_of_isGap spaceIsGap,
                  List.forall_mem_cons.mpr ⟨first, unsigned later⟩⟩
        | false =>
            rw [if_neg Bool.false_ne_true]
            refine ⟨?_, sameState, ?_⟩
            · rw [Mark.ofText, collapse, if_neg isGap, if_neg Bool.false_ne_true, settled]
            · intro allUnsigned
              obtain ⟨first, later⟩ := List.forall_mem_cons.mp allUnsigned
              exact List.forall_mem_cons.mpr ⟨first, unsigned later⟩

/-- The last character that is kept of a part is not blank, unless it leaves a string
open. -/
theorem isBlank_of_last
    {state : Quoting} {character : CodePoint} {rest : Text}
    (opened : state.Opened)
    (closed : state.after (character :: rest) = .outside)
    (kept : ¬ Mark.isGap ⟨character, state.isOpen⟩ = true)
    (isLast : collapse false (Mark.ofText (state.next character) rest) = []) :
    isBlank character = false := by
  cases isOpen : state.isOpen with
  | false =>
      simpa [Mark.isGap, isOpen] using kept
  | true =>
      cases staysOpen : (state.next character).isOpen with
      | false =>
          exact Quoting.isBlank_of_closes opened isOpen
            (Quoting.eq_outside_of_not_isOpen staysOpen)
      | true =>
          cases rest with
          | nil =>
              have ended : state.next character = .outside := closed
              rw [ended] at staysOpen
              cases staysOpen
          | cons second others =>
              simp [Mark.ofText, collapse, Mark.isGap, staysOpen] at isLast

/-- A part that leaves no string open ends in a character that is not blank. -/
theorem endsTight_collapse
    (gap : Bool) (state : Quoting) {part : Text}
    (opened : state.Opened)
    (closed : state.after part = .outside) :
    EndsTight (collapse gap (Mark.ofText state part)) := by
  induction part generalizing gap state with
  | nil =>
      intro character isLast
      cases isLast
  | cons character rest inductionHypothesis =>
      have restTight (anyGap : Bool) :=
        inductionHypothesis anyGap _ (opened.next character) closed
      rw [Mark.ofText, collapse]
      by_cases isGap : Mark.isGap ⟨character, state.isOpen⟩ = true
      · rw [if_pos isGap]
        exact restTight true
      · rw [if_neg isGap]
        have tight :
            EndsTight
              ([character] ++ collapse false (Mark.ofText (state.next character) rest)) := by
          by_cases isLast : collapse false (Mark.ofText (state.next character) rest) = []
          · have notBlank := isBlank_of_last opened closed isGap isLast
            rw [isLast]
            intro last found
            cases found
            exact notBlank
          · exact (restTight false).append_of_ne_nil [character] isLast
        cases gap with
        | true =>
            exact tight.append_of_ne_nil [' '] (List.cons_ne_nil character _)
        | false =>
            exact tight

/-! ## Tags as they are written -/

/-- A tag as it is written: its sign and then something that holds no further sign and
no gap but single spaces, and leaves no quoted string open. -/
inductive Written : Text → Prop
  | mk {body : Text} :
      body ≠ [] →
      (∀ mark ∈ Mark.ofText .outside body, mark.startsTag = false) →
      collapse false (Mark.ofText .outside body) = body →
      Quoting.after .outside body = .outside →
      Written (Mark.tagSign :: body)

/-- Scanning writes tags when it leaves no quoted string open. -/
theorem written_of_mem_scan
    {remainder tag : Text}
    (closed : Quoting.after .outside remainder = .outside)
    (member : tag ∈ scan remainder) :
    Written tag := by
  obtain ⟨inPieces, notEmpty⟩ := List.mem_filter.mp member
  obtain ⟨piece, pieceMember, rfl⟩ := List.mem_map.mp inPieces
  obtain ⟨before, parts, shape, unsigned, _, closes, _⟩ := exists_pieces .outside remainder
  rw [shape] at pieceMember
  obtain ⟨part, partMember, rfl⟩ := List.mem_map.mp pieceMember
  obtain ⟨settled, sameState, staysUnsigned⟩ :=
    collapse_again false .outside part fun _ => rfl
  refine .mk ?_ (staysUnsigned (unsigned part partMember)) settled ?_
  · intro isEmpty
    rw [isEmpty] at notEmpty
    simp at notEmpty
  · rw [sameState]
    exact (closes closed).2 part partMember

theorem Written.ne_nil
    {tag : Text}
    (written : Written tag) :
    tag ≠ [] := by
  obtain ⟨_, _, _, _⟩ := written
  exact List.cons_ne_nil Mark.tagSign _

theorem Written.endsTight
    {tag : Text}
    (written : Written tag) :
    EndsTight tag := by
  obtain ⟨filled, _, collapsed, closed⟩ := written
  have tight := endsTight_collapse false .outside trivial closed
  rw [collapsed] at tight
  exact tight.append_of_ne_nil [Mark.tagSign] filled

/-- Tags in front of which there are blanks, and blanks behind them all. -/
inductive Spaced : List Text → Text → Prop
  | blank {blanks : Text} :
      (∀ character ∈ blanks, isBlank character = true) →
      Spaced [] blanks
  | tag {blanks tag text : Text} {tags : List Text} :
      (∀ character ∈ blanks, isBlank character = true) →
      Written tag →
      Spaced tags text →
      Spaced (tag :: tags) (blanks ++ (tag ++ text))

namespace Spaced

variable {tags : List Text} {text : Text}

/-- Only blanks stand in front of the first tag, and each piece is a tag. -/
theorem pieces_eq
    (spaced : Spaced tags text) :
    (∀ mark ∈ (pieces (Mark.ofText .outside text)).1, mark.isGap = true) ∧
      (pieces (Mark.ofText .outside text)).2.map
        (fun piece => Mark.tagSign :: collapse false piece) = tags := by
  have skipped {blanks : Text} (allBlank : ∀ character ∈ blanks, isBlank character = true)
      (rest : Text) :
      pieces (Mark.ofText .outside (blanks ++ rest)) =
        (Mark.ofText .outside blanks ++ (pieces (Mark.ofText .outside rest)).1,
          (pieces (Mark.ofText .outside rest)).2) := by
    obtain ⟨gaps, outside⟩ := Mark.ofText_blanks allBlank
    rw [Mark.ofText_append, outside]
    exact pieces_append (fun mark member => Mark.startsTag_of_isGap (gaps mark member)) _
  induction spaced with
  | @blank blanks allBlank =>
      have cut := skipped allBlank []
      rw [List.append_nil] at cut
      rw [cut]
      refine ⟨?_, rfl⟩
      rw [Mark.ofText, pieces, List.append_nil]
      exact (Mark.ofText_blanks allBlank).1
  | @tag blanks tag text tags allBlank written spaced inductionHypothesis =>
      obtain ⟨gaps, later⟩ := inductionHypothesis
      cases written with
      | @mk body filled unsigned collapsed closed =>
          have starts : Mark.startsTag ⟨Mark.tagSign, false⟩ = true := rfl
          have cut :
              pieces (Mark.ofText .outside (Mark.tagSign :: body ++ text)) =
                ([], (Mark.ofText .outside body ++ (pieces (Mark.ofText .outside text)).1) ::
                  (pieces (Mark.ofText .outside text)).2) := by
            have marked :
                Mark.ofText .outside (Mark.tagSign :: body ++ text) =
                  ⟨Mark.tagSign, false⟩ ::
                    (Mark.ofText .outside body ++ Mark.ofText .outside text) := by
              have split := Mark.ofText_append .outside body text
              rw [closed] at split
              rw [← split]
              rfl
            rw [marked, pieces_cons_of_startsTag starts, pieces_append unsigned]
          rw [skipped allBlank, cut]
          refine ⟨?_, ?_⟩
          · rw [List.append_nil]
            exact (Mark.ofText_blanks allBlank).1
          · rw [List.map_cons, collapse_append_gaps _ _ gaps, collapsed, later]

theorem scan_eq
    (spaced : Spaced tags text) :
    scan text = tags := by
  have notSign : ∀ tag ∈ tags, (tag != [Mark.tagSign]) = true := by
    induction spaced with
    | blank _ =>
        intro tag member
        cases member
    | tag _ written _ inductionHypothesis =>
        refine List.forall_mem_cons.mpr ⟨?_, inductionHypothesis⟩
        obtain ⟨filled, _, _, _⟩ := written
        simpa using filled
  rw [scan, spaced.pieces_eq.2]
  exact List.filter_eq_self.mpr notSign

theorem squash_eq
    (spaced : Spaced tags text) :
    squash text = squash tags.flatten := by
  induction spaced with
  | blank allBlank =>
      exact squash_of_blank allBlank
  | @tag blanks tag text tags allBlank _ _ inductionHypothesis =>
      rw [List.flatten_cons, squash_append, squash_append, squash_append,
        squash_of_blank allBlank, List.nil_append, inductionHypothesis]

theorem blanks_append
    {blanks : Text}
    (allBlank : ∀ character ∈ blanks, isBlank character = true)
    (spaced : Spaced tags text) :
    Spaced tags (blanks ++ text) := by
  cases spaced with
  | blank othersBlank =>
      exact .blank (List.forall_mem_append.mpr ⟨allBlank, othersBlank⟩)
  | tag othersBlank written spaced =>
      rw [← List.append_assoc]
      exact .tag (List.forall_mem_append.mpr ⟨allBlank, othersBlank⟩) written spaced

theorem stripLeft
    (spaced : Spaced tags text) :
    Spaced tags (Text.stripLeft text) := by
  cases spaced with
  | blank allBlank =>
      exact .blank fun character member =>
        allBlank character ((stripLeft_sublist _).subset member)
  | @tag blanks tag text tags allBlank written spaced =>
      have atTag : Text.stripLeft (blanks ++ (tag ++ text)) = [] ++ (tag ++ text) := by
        obtain ⟨_, _, _, _⟩ := written
        exact List.dropWhile_append_of_pos allBlank
      rw [atTag]
      exact .tag (fun _ member => absurd member List.not_mem_nil) written spaced

theorem stripRight
    (spaced : Spaced tags text) :
    Spaced tags (Text.stripRight text) := by
  induction spaced with
  | blank allBlank =>
      exact .blank fun character member =>
        allBlank character ((stripRight_sublist _).subset member)
  | @tag blanks tag text tags allBlank written _ inductionHypothesis =>
      have tight : EndsTight (blanks ++ tag) :=
        written.endsTight.append_of_ne_nil blanks written.ne_nil
      rw [← List.append_assoc, stripRight_append_of_endsTight tight, List.append_assoc]
      exact .tag allBlank written inductionHypothesis

/-- Tags joined by spaces are spaced. -/
theorem intercalate
    {tags : List Text}
    (written : ∀ tag ∈ tags, Written tag) :
    Spaced tags (([' '] : Text) ++ ([' '] : Text).intercalate tags) := by
  have space := isBlank_of_mem_space
  induction tags with
  | nil =>
      exact .blank space
  | cons tag rest inductionHypothesis =>
      obtain ⟨first, later⟩ := List.forall_mem_cons.mp written
      cases rest with
      | nil =>
          have single : ([' '] : Text).intercalate [tag] = tag ++ [] := by simp [List.intercalate]
          rw [single]
          exact .tag space first (.blank fun _ member => absurd member List.not_mem_nil)
      | cons next others =>
          rw [List.intercalate_cons_cons, List.append_assoc]
          exact .tag space first (inductionHypothesis later)

end Spaced

end Tags

end Tidy
