import Tidy.Proofs.Trim
import Tidy.Source

/-!
# Cutting at line feeds

Joining undoes the cut at line feeds, and the cut undoes joining on the lists of
lines that can come out of it.  Such a list is known by its lines one at a time
and by the order of its endings, so lines can be exchanged as long as each new
one fits the ending that follows it.
-/

theorem Tidy.Ending.length_text_pos
    {ending : Ending}
    (ends : ending ≠ .none) :
    0 < ending.text.length := by
  cases ending with
  | none =>
      exact absurd rfl ends
  | feed =>
      exact Nat.one_pos
  | returnFeed =>
      exact Nat.two_pos
  | carriageReturn =>
      exact Nat.one_pos

namespace Tidy.Line

/-- A line that the cut at line feeds can leave: it holds no line feed, and a
carriage return before its line feed counts as part of the ending. -/
structure FitsFeed (line : Line) : Prop where
  noFeed : CodePoint.scalar '\n' ∉ line.text
  noLoneReturn : line.ending ≠ .carriageReturn
  noReturnBeforeFeed : line.ending = .feed → line.text.getLast? ≠ some (CodePoint.scalar '\r')

/-- The last line has no ending, and all others have one. -/
def EndsOnce (endings : List Ending) : Prop :=
  ∃ front, endings = front ++ [.none] ∧ .none ∉ front

/-- The lists of lines that the cut at line feeds can leave. -/
structure CutAtFeeds (lines : List Line) : Prop where
  fits : ∀ line ∈ lines, FitsFeed line
  endsOnce : EndsOnce (lines.map Line.ending)

/-! ## What the cut leaves -/

/-- Either the first ending is the last one, or the others end once. -/
theorem endsOnce_cons_iff
    (ending : Ending) (endings : List Ending) :
    EndsOnce (ending :: endings) ↔
      (ending = .none ∧ endings = []) ∨ (ending ≠ .none ∧ EndsOnce endings) := by
  constructor
  · rintro ⟨front, shape, noneMissing⟩
    cases front with
    | nil =>
        injection shape with isNone noOthers
        exact Or.inl ⟨isNone, noOthers⟩
    | cons first others =>
        injection shape with isFirst isRest
        rw [List.mem_cons, not_or] at noneMissing
        exact Or.inr ⟨fun isNone => noneMissing.1 (isNone.symm.trans isFirst),
          others, isRest, noneMissing.2⟩
  · rintro (⟨rfl, rfl⟩ | ⟨ends, front, rfl, noneMissing⟩)
    · exact ⟨[], rfl, List.not_mem_nil⟩
    · refine ⟨ending :: front, rfl, ?_⟩
      rw [List.mem_cons, not_or]
      exact ⟨fun equal => ends equal.symm, noneMissing⟩

theorem EndsOnce.cons
    {ending : Ending} {endings : List Ending}
    (endsOnce : EndsOnce endings)
    (ends : ending ≠ .none) :
    EndsOnce (ending :: endings) :=
  (endsOnce_cons_iff ending endings).mpr (Or.inr ⟨ends, endsOnce⟩)

theorem EndsOnce.consFirst
    (character : CodePoint) {lines : List Line}
    (endsOnce : EndsOnce (lines.map Line.ending)) :
    EndsOnce ((consFirst character lines).map Line.ending) := by
  cases lines with
  | nil =>
      exact ⟨[], rfl, List.not_mem_nil⟩
  | cons line rest =>
      exact endsOnce

theorem CutAtFeeds.cons
    {line : Line} {lines : List Line}
    (fitsFeed : FitsFeed line)
    (ends : line.ending ≠ .none)
    (cut : CutAtFeeds lines) :
    CutAtFeeds (line :: lines) where
  fits := by
    intro other member
    rcases List.mem_cons.mp member with equal | later
    · rw [equal]
      exact fitsFeed
    · exact cut.fits other later
  endsOnce := cut.endsOnce.cons ends

theorem CutAtFeeds.consFirst
    {character : CodePoint} {lines : List Line}
    (notFeed : character ≠ '\n')
    (notBeforeFeed :
      character = '\r' →
        ∀ line, lines.head? = some line → ¬ (line.text = [] ∧ line.ending = .feed))
    (cut : CutAtFeeds lines) :
    CutAtFeeds (consFirst character lines) := by
  cases lines with
  | nil =>
      obtain ⟨front, shape, _⟩ := cut.endsOnce
      simp at shape
  | cons line rest =>
      have fitsFeed : FitsFeed line := cut.fits line (by simp)
      refine { fits := ?_, endsOnce := cut.endsOnce.consFirst character }
      intro other member
      rcases List.mem_cons.mp member with equal | later
      · subst other
        refine ⟨?_, fitsFeed.noLoneReturn, ?_⟩
        · rw [List.mem_cons, not_or]
          exact ⟨fun equal => notFeed equal.symm, fitsFeed.noFeed⟩
        · intro isFeed
          cases shape : line.text with
          | nil =>
              intro isReturn
              have returned : character = '\r' := by simpa using isReturn
              exact notBeforeFeed returned line rfl ⟨shape, isFeed⟩
          | cons first others =>
              have kept := fitsFeed.noReturnBeforeFeed isFeed
              rw [shape] at kept
              simpa using kept
      · exact cut.fits other (List.mem_cons_of_mem line later)

/-- A character that neither is a line feed nor starts a carriage return with its
line feed belongs to the first line. -/
theorem ofFeeds_cons
    {character : CodePoint} {rest : Text}
    (notFeed : character ≠ '\n')
    (notReturnFeed : character = '\r' → rest.head? ≠ some (CodePoint.scalar '\n')) :
    ofFeeds (character :: rest) = consFirst character (ofFeeds rest) := by
  rw [ofFeeds]
  · intro others isReturn shape
    exact notReturnFeed isReturn (by rw [shape]; rfl)
  · exact notFeed

/-- An empty first line with a bare line feed comes from a line feed in front. -/
theorem ofFeeds_head
    {text : Text} {line : Line}
    (isFirst : (ofFeeds text).head? = some line)
    (isEmpty : line.text = [])
    (isFeed : line.ending = .feed) :
    text.head? = some (CodePoint.scalar '\n') := by
  fun_cases ofFeeds text with
  | case1 =>
      simp only [ofFeeds, List.head?_cons, Option.some.injEq] at isFirst
      subst line
      cases isFeed
  | case2 rest =>
      simp only [ofFeeds, List.head?_cons, Option.some.injEq] at isFirst
      subst line
      cases isFeed
  | case3 rest =>
      rfl
  | case4 character rest notReturnFeed notFeed =>
      have firstCons : ofFeeds (character :: rest) = consFirst character (ofFeeds rest) := by
        rw [ofFeeds]
        · exact notReturnFeed
        · exact notFeed
      rw [firstCons] at isFirst
      cases shape : ofFeeds rest with
      | nil =>
          rw [shape] at isFirst
          cases isFirst
          cases isEmpty
      | cons first others =>
          rw [shape] at isFirst
          cases isFirst
          cases isEmpty

theorem cutAtFeeds_ofFeeds
    (text : Text) :
    CutAtFeeds (ofFeeds text) := by
  fun_induction ofFeeds text with
  | case1 =>
      refine { fits := ?_, endsOnce := ⟨[], rfl, by simp⟩ }
      intro line member
      rw [List.mem_singleton.mp member]
      exact ⟨by simp, by simp, by simp⟩
  | case2 rest inductionHypothesis =>
      exact inductionHypothesis.cons ⟨by simp, by simp, by simp⟩ (by simp)
  | case3 rest inductionHypothesis =>
      exact inductionHypothesis.cons ⟨by simp, by simp, by simp⟩ (by simp)
  | case4 character rest notReturnFeed notFeed inductionHypothesis =>
      apply inductionHypothesis.consFirst notFeed
      rintro isReturn line isFirst ⟨isEmpty, isFeed⟩
      obtain ⟨others, shape⟩ :=
        List.head?_eq_some_iff.mp (ofFeeds_head isFirst isEmpty isFeed)
      exact notReturnFeed others isReturn shape

theorem join_consFirst
    (character : CodePoint) (lines : List Line) :
    join (consFirst character lines) = character :: join lines := by
  cases lines <;> rfl

@[simp]
theorem join_ofFeeds
    (text : Text) :
    join (ofFeeds text) = text := by
  fun_induction ofFeeds text with
  | case1 =>
      rfl
  | case2 rest inductionHypothesis =>
      conv => rhs; rw [← inductionHypothesis]
      rfl
  | case3 rest inductionHypothesis =>
      conv => rhs; rw [← inductionHypothesis]
      rfl
  | case4 character rest _ _ inductionHypothesis =>
      rw [join_consFirst, inductionHypothesis]

/-! ## Cutting what was joined -/

theorem ofFeeds_of_noFeed
    {text : Text} (noFeed : CodePoint.scalar '\n' ∉ text) :
    ofFeeds text = [⟨text, .none⟩] := by
  induction text with
  | nil =>
      rfl
  | cons character rest inductionHypothesis =>
      rw [List.mem_cons, not_or] at noFeed
      obtain ⟨notFeed, restNoFeed⟩ := noFeed
      rw [ofFeeds_cons (fun equal => notFeed equal.symm), inductionHypothesis restNoFeed]
      · rfl
      · intro _ isFeed
        exact restNoFeed (List.mem_of_mem_head? isFeed)

theorem ofFeeds_append_feed
    {text : Text} (rest : Text)
    (noFeed : CodePoint.scalar '\n' ∉ text)
    (noReturn : text.getLast? ≠ some (CodePoint.scalar '\r')) :
    ofFeeds (text ++ CodePoint.scalar '\n' :: rest) = ⟨text, .feed⟩ :: ofFeeds rest := by
  induction text with
  | nil =>
      rfl
  | cons character others inductionHypothesis =>
      rw [List.mem_cons, not_or] at noFeed
      obtain ⟨notFeed, othersNoFeed⟩ := noFeed
      have othersNoReturn : others.getLast? ≠ some (CodePoint.scalar '\r') := by
        intro isReturn
        apply noReturn
        rw [List.getLast?_cons, isReturn]
        rfl
      rw [List.cons_append, ofFeeds_cons (fun equal => notFeed equal.symm),
        inductionHypothesis othersNoFeed othersNoReturn]
      · rfl
      · intro isReturn isFeed
        cases others with
        | nil =>
            exact noReturn (by rw [isReturn]; rfl)
        | cons next more =>
            simp only [List.cons_append, List.head?_cons, Option.some.injEq] at isFeed
            exact othersNoFeed (by rw [isFeed]; exact List.mem_cons_self)

theorem ofFeeds_append_returnFeed
    {text : Text} (rest : Text)
    (noFeed : CodePoint.scalar '\n' ∉ text) :
    ofFeeds (text ++ CodePoint.scalar '\r' :: CodePoint.scalar '\n' :: rest) =
      ⟨text, .returnFeed⟩ :: ofFeeds rest := by
  induction text with
  | nil =>
      rfl
  | cons character others inductionHypothesis =>
      rw [List.mem_cons, not_or] at noFeed
      obtain ⟨notFeed, othersNoFeed⟩ := noFeed
      rw [List.cons_append, ofFeeds_cons (fun equal => notFeed equal.symm),
        inductionHypothesis othersNoFeed]
      · rfl
      · intro _ isFeed
        cases others with
        | nil =>
            simp at isFeed
        | cons next more =>
            simp only [List.cons_append, List.head?_cons, Option.some.injEq] at isFeed
            exact othersNoFeed (by rw [isFeed]; exact List.mem_cons_self)

theorem join_cons
    (line : Line) (lines : List Line) :
    join (line :: lines) = line.text ++ line.ending.text ++ join lines :=
  List.flatMap_cons

theorem CutAtFeeds.tail
    {line : Line} {lines : List Line}
    (cut : CutAtFeeds (line :: lines))
    (ends : line.ending ≠ .none) :
    CutAtFeeds lines where
  fits := fun other member => cut.fits other (List.mem_cons_of_mem line member)
  endsOnce := by
    rcases (endsOnce_cons_iff ..).mp cut.endsOnce with ⟨isNone, _⟩ | ⟨_, endsOnce⟩
    · exact absurd isNone ends
    · exact endsOnce

theorem CutAtFeeds.eq_singleton
    {line : Line} {lines : List Line}
    (cut : CutAtFeeds (line :: lines))
    (unended : line.ending = .none) :
    lines = [] := by
  rcases (endsOnce_cons_iff ..).mp cut.endsOnce with ⟨_, noOthers⟩ | ⟨ends, _⟩
  · exact List.map_eq_nil_iff.mp noOthers
  · exact absurd unended ends

/-- The cut at line feeds recovers the lines that were joined. -/
theorem ofFeeds_join
    {lines : List Line} (cut : CutAtFeeds lines) :
    ofFeeds (join lines) = lines := by
  induction lines with
  | nil =>
      obtain ⟨front, shape, _⟩ := cut.endsOnce
      simp at shape
  | cons line rest inductionHypothesis =>
      have fitsFeed : FitsFeed line := cut.fits line List.mem_cons_self
      rw [join_cons]
      obtain ⟨text, ending⟩ := line
      cases ending with
      | none =>
          rw [cut.eq_singleton rfl]
          simpa [join, Ending.text] using ofFeeds_of_noFeed fitsFeed.noFeed
      | feed =>
          have recovered := inductionHypothesis (cut.tail (by simp))
          simpa [Ending.text, recovered] using
            ofFeeds_append_feed (join rest) fitsFeed.noFeed (fitsFeed.noReturnBeforeFeed rfl)
      | returnFeed =>
          have recovered := inductionHypothesis (cut.tail (by simp))
          simpa [Ending.text, recovered] using
            ofFeeds_append_returnFeed (join rest) fitsFeed.noFeed
      | carriageReturn =>
          exact absurd rfl fitsFeed.noLoneReturn

end Tidy.Line
