import Tidy.Proofs.Statements

/-!
# Runs that stay as they are

A run is made of finished statements, and nothing but a run is.  Writing a
statement anew keeps it finished and keeps its group, so that a run in order is
found again whole and put in the same order.
-/

namespace Tidy.Import

open Text

/-! ## Finished statements -/

/-- The statements of a run: a line that leaves no brace open, or the lines up to
the first one with a closing brace. -/
inductive Statement.Finished : Statement → Prop
  | single {first : Text} :
      isStart first = true →
      leavesBraceOpen first = false →
      Finished ⟨first, []⟩
  | braced {first last : Text} {inner : List Text} :
      isStart first = true →
      leavesBraceOpen first = true →
      (∀ line ∈ inner, CodePoint.scalar '\x7d' ∉ line) →
      CodePoint.scalar '\x7d' ∈ last →
      Finished ⟨first, inner ++ [last]⟩

theorem Statement.Finished.isStart
    {statement : Statement}
    (finished : statement.Finished) :
    isStart statement.first = true := by
  cases finished with
  | single starts _ =>
      exact starts
  | braced starts _ _ _ =>
      exact starts

/-- The lines up to the first one with a closing brace, if there is one. -/
theorem closing_cases
    (following : List Text) :
    (∀ line ∈ following, CodePoint.scalar '\x7d' ∉ line) ∨
      ∃ inner last after, following = inner ++ last :: after ∧
        (∀ line ∈ inner, CodePoint.scalar '\x7d' ∉ line) ∧ CodePoint.scalar '\x7d' ∈ last := by
  induction following with
  | nil =>
      exact Or.inl fun _ member => absurd member List.not_mem_nil
  | cons line rest inductionHypothesis =>
      by_cases closes : CodePoint.scalar '\x7d' ∈ line
      · exact Or.inr ⟨[], line, rest, rfl, fun _ member => absurd member List.not_mem_nil, closes⟩
      · rcases inductionHypothesis with noClosing | ⟨inner, last, after, rfl, noClosing, isClosing⟩
        · exact Or.inl (List.forall_mem_cons.mpr ⟨closes, noClosing⟩)
        · exact Or.inr ⟨line :: inner, last, after, rfl,
            List.forall_mem_cons.mpr ⟨closes, noClosing⟩, isClosing⟩

theorem takeWhile_noClosing
    {inner : List Text}
    (noClosing : ∀ line ∈ inner, CodePoint.scalar '\x7d' ∉ line)
    (after : List Text) :
    (inner ++ after).takeWhile (fun line => !line.contains '\x7d') =
      inner ++ after.takeWhile fun line => !line.contains '\x7d' := by
  apply List.takeWhile_append_of_pos
  intro line member
  simpa using noClosing line member

theorem extraLines?_eq_none
    {line : Text} {following : List Text}
    (opens : opensLines line = true)
    (noClosing : ∀ other ∈ following, CodePoint.scalar '\x7d' ∉ other) :
    extraLines? line following = none := by
  have takesAll := takeWhile_noClosing noClosing []
  rw [List.append_nil, List.takeWhile_nil, List.append_nil] at takesAll
  unfold extraLines?
  rw [if_pos opens, takesAll]
  exact if_neg (Nat.lt_irrefl _)

theorem extraLines?_of_finished
    {statement : Statement}
    (finished : statement.Finished) (after : List Text) :
    extraLines? statement.first (statement.rest ++ after) = some statement.rest.length := by
  cases finished with
  | single starts closed =>
      simp [extraLines?, opensLines, closed]
  | @braced first last inner starts leavesOpen noClosing closes =>
      have stops : (!last.contains '\x7d') = false := by simpa using closes
      have reached := takeWhile_noClosing noClosing (last :: after)
      rw [List.takeWhile_cons, stops] at reached
      simp only [extraLines?, opensLines, starts, leavesOpen, List.append_assoc,
        List.singleton_append, reached]
      simp

/-- What an import takes of the lines behind it is a finished statement. -/
theorem finished_of_extraLines?
    {line : Text} {following : List Text} {extra : Nat}
    (starts : isStart line = true)
    (isExtra : extraLines? line following = some extra) :
    Statement.Finished ⟨line, following.take extra⟩ := by
  cases leavesOpen : leavesBraceOpen line with
  | false =>
      have takesNone := extraLines?_of_finished (.single starts leavesOpen) following
      cases takesNone.symm.trans isExtra
      exact .single starts leavesOpen
  | true =>
      rcases closing_cases following with noClosing | ⟨inner, last, after, rfl, noClosing, closes⟩
      · have opens : opensLines line = true := by rw [opensLines, starts, leavesOpen]; rfl
        rw [extraLines?_eq_none opens noClosing] at isExtra
        cases isExtra
      · have finished : Statement.Finished ⟨line, inner ++ [last]⟩ :=
          .braced starts leavesOpen noClosing closes
        have takes := extraLines?_of_finished finished after
        rw [List.append_cons] at isExtra ⊢
        cases takes.symm.trans isExtra
        rw [List.take_left]
        exact finished

/-! ## Runs of finished statements -/

/-- A run of finished statements is cut into these statements. -/
theorem statements_flatMap_lines
    {run : List Statement}
    (finished : ∀ statement ∈ run, statement.Finished) :
    statements (run.flatMap Statement.lines) = run := by
  induction run with
  | nil =>
      rw [List.flatMap_nil, statements]
  | cons statement rest inductionHypothesis =>
      obtain ⟨first, later⟩ := List.forall_mem_cons.mp finished
      rw [List.flatMap_cons, Statement.lines, List.cons_append, statements,
        extraLines?_of_finished first]
      simp only [Option.getD_some, List.take_left, List.drop_left, inductionHypothesis later]

/-- A run of finished statements is found whole. -/
theorem runLength_flatMap_lines
    {run : List Statement}
    (finished : ∀ statement ∈ run, statement.Finished)
    (after : List Text) :
    runLength (run.flatMap Statement.lines ++ after) =
      (run.flatMap Statement.lines).length + runLength after := by
  induction run with
  | nil =>
      rw [List.flatMap_nil, List.nil_append, List.length_nil, Nat.zero_add]
  | cons statement rest inductionHypothesis =>
      obtain ⟨first, later⟩ := List.forall_mem_cons.mp finished
      rw [List.flatMap_cons, List.append_assoc, Statement.lines, List.cons_append, runLength,
        if_pos first.isStart, extraLines?_of_finished first]
      simp only [List.drop_left, inductionHypothesis later, List.length_append, List.length_cons]
      omega

/-- Lines are a run of finished statements and then lines that start none. -/
theorem exists_run
    (lines : List Text) :
    ∃ (run : List Statement) (after : List Text),
      (∀ statement ∈ run, statement.Finished) ∧
      lines = run.flatMap Statement.lines ++ after ∧
      runLength after = 0 := by
  fun_induction runLength lines with
  | case1 =>
      exact ⟨[], [], by simp, rfl, by rw [runLength]⟩
  | case2 line following starts unfinished =>
      exact ⟨[], line :: following, by simp, rfl, by rw [runLength, if_pos starts, unfinished]⟩
  | case3 line following starts extra isExtra inductionHypothesis =>
      obtain ⟨run, after, finished, shape, ended⟩ := inductionHypothesis
      have first := finished_of_extraLines? starts isExtra
      refine ⟨⟨line, following.take extra⟩ :: run, after, ?_, ?_, ended⟩
      · exact List.forall_mem_cons.mpr ⟨first, finished⟩
      · rw [List.flatMap_cons, List.append_assoc, ← shape, Statement.lines, List.cons_append,
          List.take_append_drop]
  | case4 line following notStart =>
      exact ⟨[], line :: following, by simp, rfl, by rw [runLength, if_neg notStart]⟩

/-- An import never ends when it leaves a brace open that no later line closes. -/
theorem runLength_eq_zero_iff
    {line : Text} (following : List Text)
    (starts : isStart line = true) :
    runLength (line :: following) = 0 ↔
      leavesBraceOpen line = true ∧ ∀ other ∈ following, CodePoint.scalar '\x7d' ∉ other := by
  have found {rest after : List Text} (finished : Statement.Finished ⟨line, rest⟩) :
      runLength (line :: (rest ++ after)) ≠ 0 := by
    rw [runLength, if_pos starts, extraLines?_of_finished finished]
    simp
  constructor
  · intro ended
    cases leavesOpen : leavesBraceOpen line with
    | false =>
        exact absurd ended (found (.single starts leavesOpen))
    | true =>
        rcases closing_cases following with noClosing | ⟨inner, last, after, rfl, noClosing, closes⟩
        · exact ⟨rfl, noClosing⟩
        · rw [List.append_cons] at ended
          exact absurd ended (found (.braced starts leavesOpen noClosing closes))
  · rintro ⟨leavesOpen, noClosing⟩
    have opens : opensLines line = true := by rw [opensLines, starts, leavesOpen]; rfl
    rw [runLength, if_pos starts, extraLines?_eq_none opens noClosing]

theorem isStart_of_runLength_ne_zero
    {line : Text} {following : List Text}
    (found : runLength (line :: following) ≠ 0) :
    isStart line = true := by
  rw [runLength] at found
  split at found
  · assumption
  · exact absurd rfl found

theorem runLength_le
    (lines : List Text) :
    runLength lines ≤ lines.length := by
  obtain ⟨run, after, finished, shape, ended⟩ := exists_run lines
  rw [shape, runLength_flatMap_lines finished, ended, List.length_append]
  exact Nat.le_add_right ..

/-- The lines of a run are finished statements, and no run starts behind them. -/
theorem finished_of_runLength
    {run after : List Text}
    (isRun : runLength (run ++ after) = run.length) :
    (∀ statement ∈ statements run, statement.Finished) ∧ runLength after = 0 := by
  obtain ⟨found, others, finished, shape, ended⟩ := exists_run (run ++ after)
  have foundLength : (found.flatMap Statement.lines).length = run.length := by
    rw [← isRun, shape, runLength_flatMap_lines finished, ended, Nat.add_zero]
  obtain ⟨rfl, rfl⟩ := List.append_inj shape foundLength.symm
  rw [statements_flatMap_lines finished]
  exact ⟨finished, ended⟩

/-! ## The words of a trimmed line -/

/-- A line starts an import with the word `import` and a character that ends it. -/
theorem isStart_iff
    (line : Text) :
    isStart line = true ↔
      ∃ rest, line.stripLeft = importWord ++ rest ∧
        ∀ character, rest.head? = some character →
          (isBlank character || opensSpecifiers character || isQuote character) = true := by
  unfold isStart
  rw [Bool.and_eq_true, List.isPrefixOf_iff_prefix]
  constructor
  · rintro ⟨⟨rest, split⟩, bounded⟩
    rw [← split, List.drop_left] at bounded
    refine ⟨rest, split.symm, ?_⟩
    intro character isFirst
    obtain ⟨others, rfl⟩ := List.head?_eq_some_iff.mp isFirst
    exact bounded
  · rintro ⟨rest, split, bounded⟩
    rw [split, List.drop_left]
    refine ⟨List.prefix_append _ _, ?_⟩
    cases rest with
    | nil =>
        rfl
    | cons character others =>
        exact bounded character rfl

/-- A line that starts an import still does when it is trimmed. -/
theorem isStart_strip
    {line : Text}
    (starts : isStart line = true) :
    isStart line.strip = true := by
  obtain ⟨rest, split, bounded⟩ := (isStart_iff line).mp starts
  have trimmed : line.strip = importWord ++ stripRight rest := by
    rw [strip, split]
    apply stripRight_append_of_endsTight
    intro character isLast
    cases isLast
    rfl
  rw [isStart_iff, stripLeft_eq_self_of_startsTight (startsTight_strip line)]
  refine ⟨stripRight rest, trimmed, ?_⟩
  intro character isFirst
  obtain ⟨blanks, restSplit, _⟩ := exists_stripRight_append rest
  apply bounded character
  rw [restSplit, List.head?_append, isFirst]
  rfl

/-- The line that opens a statement of several lines, cut at its opening brace. -/
theorem opening_split
    {line : Text}
    (starts : isStart line = true)
    (leavesOpen : leavesBraceOpen line = true) :
    ∃ before behind,
      line.stripLeft = importWord ++ before ++ CodePoint.scalar '\x7b' :: behind := by
  obtain ⟨rest, split, _⟩ := (isStart_iff line).mp starts
  have isOpening : CodePoint.scalar '\x7b' ∈ line.stripLeft := by
    rw [← leavesBraceOpen_strip] at leavesOpen
    exact (stripRight_sublist _).subset (opening_mem_of_leavesBraceOpen leavesOpen)
  have inRest : CodePoint.scalar '\x7b' ∈ rest := by
    rw [split] at isOpening
    rcases List.mem_append.mp isOpening with inWord | inRest
    · exact absurd inWord (by decide)
    · exact inRest
  obtain ⟨before, behind, shape⟩ := List.append_of_mem inRest
  exact ⟨before, behind, by rw [split, shape, List.append_assoc]⟩

/-- What stands between the word `import` and the opening brace starts the body. -/
theorem body_of_opening
    {line before behind : Text}
    (split : line.stripLeft = importWord ++ before ++ CodePoint.scalar '\x7b' :: behind)
    (tail : Text) :
    body (line ++ tail) = before.stripLeft ++ CodePoint.scalar '\x7b' :: (behind ++ tail) := by
  unfold body
  rw [stripLeft_append (by simp [split]), split, List.append_assoc, List.append_assoc,
    List.drop_left, List.cons_append]
  exact stripLeft_append_cons before rfl _

/-! ## The group of a statement -/

/-- A word without an opening brace is found in front of the brace, or not at all. -/
theorem isPrefixOf_append_brace
    {word : Text} (noBrace : CodePoint.scalar '\x7b' ∉ word) (before behind : Text) :
    word.isPrefixOf (before ++ CodePoint.scalar '\x7b' :: behind) = word.isPrefixOf before := by
  induction before generalizing word with
  | nil =>
      cases word with
      | nil =>
          rfl
      | cons character rest =>
          have different : character ≠ '\x7b' := fun equal => noBrace (by simp [equal])
          simp [List.isPrefixOf, different]
  | cons first others inductionHypothesis =>
      cases word with
      | nil =>
          rfl
      | cons character rest =>
          have restNoBrace : CodePoint.scalar '\x7b' ∉ rest :=
            fun member => noBrace (List.mem_cons_of_mem _ member)
          rw [List.cons_append, List.isPrefixOf, List.isPrefixOf, inductionHypothesis restNoBrace]

/-- Whether a body is type-only shows in front of its opening brace. -/
theorem isTypeOnly_append_brace
    (before behind other : Text) :
    isTypeOnly (before ++ CodePoint.scalar '\x7b' :: behind) =
      isTypeOnly (before ++ CodePoint.scalar '\x7b' :: other) := by
  unfold isTypeOnly
  rw [isPrefixOf_append_brace (by decide), isPrefixOf_append_brace (by decide)]
  cases starts : typeWord.isPrefixOf before with
  | false =>
      rfl
  | true =>
      obtain ⟨rest, rfl⟩ := List.isPrefixOf_iff_prefix.mp starts
      rw [List.append_assoc, List.append_assoc, List.drop_left, List.drop_left]
      cases rest <;> rfl

namespace Statement

theorem exists_text_eq
    (statement : Statement) :
    ∃ tail, statement.text = statement.first ++ tail := by
  unfold text lines
  cases statement.rest with
  | nil =>
      exact ⟨[], by simp [List.intercalate]⟩
  | cons line others =>
      exact ⟨_, by simp [List.intercalate]; rfl⟩

/-- The line up to the opening brace and the number of lines settle the group. -/
theorem group_eq_of_opening
    {statement other : Statement} {before behind otherBehind : Text}
    (split : statement.first.stripLeft = importWord ++ before ++ CodePoint.scalar '\x7b' :: behind)
    (otherSplit :
      other.first.stripLeft = importWord ++ before ++ CodePoint.scalar '\x7b' :: otherBehind)
    (sameShape : statement.isMultiline = other.isMultiline) :
    statement.group = other.group := by
  obtain ⟨tail, isText⟩ := statement.exists_text_eq
  obtain ⟨otherTail, isOtherText⟩ := other.exists_text_eq
  have samePrefix (left right : Text) :
      (['\x7b'] : Text).isPrefixOf (before.stripLeft ++ CodePoint.scalar '\x7b' :: left) =
        (['\x7b'] : Text).isPrefixOf (before.stripLeft ++ CodePoint.scalar '\x7b' :: right) := by
    cases before.stripLeft <;> rfl
  unfold group
  rw [isText, isOtherText, body_of_opening split, body_of_opening otherSplit, sameShape]
  simp only [isTypeOnly_append_brace _ _ (otherBehind ++ otherTail),
    samePrefix _ (otherBehind ++ otherTail)]

/-! ## Statements written anew -/

theorem normalized_braced
    (first last : Text) (inner : List Text) :
    normalized ⟨first, inner ++ [last]⟩ =
      ⟨first.strip, tidyInner ⟨first, inner ++ [last]⟩ ++ [last.strip]⟩ :=
  normalized_of_last List.getLast?_concat

theorem innerLines_braced
    (first last : Text) (inner : List Text) :
    innerLines ⟨first, inner ++ [last]⟩ = inner :=
  List.dropLast_concat

/-- A finished statement is finished when it is written anew. -/
theorem Finished.normalized
    {statement : Statement}
    (finished : statement.Finished) :
    statement.normalized.Finished := by
  cases finished with
  | @single first starts closed =>
      rw [normalized_of_single rfl]
      exact .single (isStart_strip starts) (by rw [leavesBraceOpen_strip, closed])
  | @braced first last inner starts leavesOpen noClosing closes =>
      rw [normalized_braced]
      refine .braced (isStart_strip starts) (by rw [leavesBraceOpen_strip, leavesOpen]) ?_ ?_
      · intro written member isClosing
        rcases mem_of_mem_tidyInner member isClosing with isComma | ⟨line, lineMember, inLine⟩
        · exact absurd isComma (by decide)
        · rw [innerLines_braced] at lineMember
          exact noClosing line lineMember inLine
      · have kept : CodePoint.scalar '\x7d' ∈ squash last := List.mem_filter.mpr ⟨closes, rfl⟩
        rw [← squash_strip] at kept
        exact (List.mem_filter.mp kept).1

/-- A statement of several lines keeps its group. -/
theorem group_normalized_braced
    {first : Text} (last : Text) (inner : List Text)
    (starts : isStart first = true)
    (leavesOpen : leavesBraceOpen first = true) :
    (normalized ⟨first, inner ++ [last]⟩).group = group ⟨first, inner ++ [last]⟩ := by
  obtain ⟨before, behind, split⟩ := opening_split starts leavesOpen
  have trimmed :
      first.strip.stripLeft =
        importWord ++ before ++ CodePoint.scalar '\x7b' :: stripRight behind := by
    have braceTight : EndsTight (importWord ++ before ++ (['\x7b'] : Text)) := by
      intro character isLast
      rw [List.getLast?_concat, Option.some.injEq] at isLast
      rw [← isLast]
      rfl
    rw [stripLeft_eq_self_of_startsTight (startsTight_strip first), strip, split,
      List.append_cons, stripRight_append_of_endsTight braceTight, ← List.append_cons]
  have several (line other : Text) (lines : List Text) :
      isMultiline ⟨line, lines ++ [other]⟩ = true := by
    cases lines <;> rfl
  rw [normalized_braced]
  exact group_eq_of_opening trimmed split ((several ..).trans (several ..).symm)

/-- No specifier line between the braces of the statement ends with two commas, blanks
at its end aside. -/
def SingleCommas (statement : Statement) : Prop :=
  statement.group = .multiLineBraced →
    ∀ line ∈ statement.innerLines, ¬ Specifiers.DoublesComma line.stripRight

/-- A statement that is written anew is not changed again. -/
theorem normalized_normalized
    {statement : Statement}
    (finished : statement.Finished)
    (single : statement.SingleCommas) :
    statement.normalized.normalized = statement.normalized := by
  cases finished with
  | @single first starts closed =>
      rw [normalized_of_single rfl, normalized_of_single rfl, strip_strip]
  | @braced first last inner starts leavesOpen noClosing closes =>
      have sameGroup := group_normalized_braced last inner starts leavesOpen
      rw [normalized_braced] at sameGroup ⊢
      rw [normalized_braced, strip_strip, strip_strip]
      have settled :
          tidyInner ⟨first.strip, tidyInner ⟨first, inner ++ [last]⟩ ++ [last.strip]⟩ =
            tidyInner ⟨first, inner ++ [last]⟩ := by
        unfold tidyInner
        rw [tidyInner] at sameGroup
        rw [sameGroup, innerLines_braced, innerLines_braced]
        split
        · rename_i isBraced
          have singleCommas := single (by simpa using isBraced)
          rw [innerLines_braced] at singleCommas
          exact Specifiers.sort_sort singleCommas
        · simp
      rw [settled]

end Statement

/-! ## Runs in order -/

theorem longestFirst_longestFirst
    (run : List Statement) :
    longestFirst (longestFirst run) = longestFirst run :=
  Specifiers.mergeSort_mergeSort_of_key
    (fun statement : Statement => statement.specifierList.length) run

/-- Statements of one group hold no place in another one. -/
theorem filter_longestFirst
    (run : List Statement) (group other : Group) :
    ((longestFirst (run.filter fun statement => statement.group == other)).filter
        fun statement => statement.group == group) =
      if group = other then longestFirst (run.filter fun statement => statement.group == other)
      else [] := by
  have inGroup :
      ∀ statement ∈ longestFirst (run.filter fun statement => statement.group == other),
        statement.group = other := by
    intro statement member
    have inBucket := (longestFirst_perm _).mem_iff.mp member
    simpa using (List.mem_filter.mp inBucket).2
  split
  · rename_i same
    apply List.filter_eq_self.mpr
    intro statement member
    simp [inGroup statement member, same]
  · rename_i different
    apply List.filter_eq_nil_iff.mpr
    intro statement member
    simpa [inGroup statement member] using fun equal => different equal.symm

/-- A group of an ordered run is the group of the run, in order. -/
theorem filter_sort
    (run : List Statement) (group : Group) :
    ((sort run).filter fun statement => statement.group == group) =
      longestFirst
        ((run.map Statement.normalized).filter fun statement => statement.group == group) := by
  simp only [sort, Group.all, List.flatMap_cons, List.flatMap_nil, List.append_nil,
    List.filter_append, filter_longestFirst]
  cases group <;> simp

/-- A run in order stays in order. -/
theorem sort_sort
    {run : List Statement}
    (settled : ∀ statement ∈ run, statement.normalized.normalized = statement.normalized) :
    sort (sort run) = sort run := by
  have fixed : (sort run).map Statement.normalized = sort run := by
    conv => rhs; rw [← List.map_id (sort run)]
    apply List.map_congr_left
    intro statement member
    obtain ⟨original, originalMember, rfl⟩ :=
      List.mem_map.mp ((sort_perm run).mem_iff.mp member)
    exact settled original originalMember
  have again :
      sort (sort run) =
        Group.all.flatMap fun group =>
          longestFirst ((sort run).filter fun statement => statement.group == group) := by
    conv => lhs; rw [sort, fixed]
  rw [again]
  simp only [filter_sort, longestFirst_longestFirst]
  rfl

theorem finished_of_mem_sort
    {run : List Statement}
    (finished : ∀ statement ∈ run, statement.Finished) :
    ∀ statement ∈ sort run, statement.Finished := by
  intro statement member
  obtain ⟨original, originalMember, rfl⟩ := List.mem_map.mp ((sort_perm run).mem_iff.mp member)
  exact (finished original originalMember).normalized

/-- A run in order is found whole, and its lines are not changed again. -/
theorem sortLines_settled
    {lines : List Text}
    (finished : ∀ statement ∈ statements lines, statement.Finished)
    (single : ∀ statement ∈ statements lines, statement.SingleCommas)
    (after : List Text) :
    sortLines (sortLines lines) = sortLines lines ∧
      runLength (sortLines lines ++ after) = lines.length + runLength after := by
  have stillFinished := finished_of_mem_sort finished
  constructor
  · have fixed : sort (sort (statements lines)) = sort (statements lines) :=
      sort_sort fun statement member =>
        Statement.normalized_normalized (finished statement member) (single statement member)
    unfold sortLines
    rw [statements_flatMap_lines stillFinished, fixed]
  · have found := runLength_flatMap_lines stillFinished after
    rw [← sortLines, length_sortLines] at found
    exact found

end Tidy.Import
