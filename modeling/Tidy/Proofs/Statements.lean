import Tidy.Import.Run
import Tidy.Proofs.Specifiers

/-!
# Statements put in order

Cutting lines into statements loses nothing, and writing the statements in order
keeps the number of lines and all their characters but blanks and commas.
-/

namespace Tidy.Import

open Text

/-! ## One statement -/

namespace Statement

theorem lines_of_single
    {statement : Statement}
    (single : statement.rest = []) :
    statement.lines = [statement.first] := by
  rw [lines, single]

theorem lines_of_last
    {statement : Statement} {last : Text}
    (isLast : statement.rest.getLast? = some last) :
    statement.lines = statement.first :: (statement.innerLines ++ [last]) := by
  obtain ⟨front, shape⟩ := List.getLast?_eq_some_iff.mp isLast
  rw [lines, innerLines, shape, List.dropLast_concat]

theorem normalized_of_single
    {statement : Statement}
    (single : statement.rest = []) :
    statement.normalized = ⟨statement.first.strip, []⟩ := by
  rw [normalized, single]
  rfl

theorem normalized_of_last
    {statement : Statement} {last : Text}
    (isLast : statement.rest.getLast? = some last) :
    statement.normalized =
      ⟨statement.first.strip, statement.tidyInner ++ [last.strip]⟩ := by
  rw [normalized, isLast]

theorem normalized_of_multiLineBraced
    {statement : Statement} {last : Text}
    (isLast : statement.rest.getLast? = some last)
    (isBraced : statement.group = .multiLineBraced) :
    statement.normalized =
      ⟨statement.first.strip, Specifiers.sort statement.innerLines ++ [last.strip]⟩ := by
  rw [normalized_of_last isLast, tidyInner, isBraced]
  rfl

theorem length_tidyInner
    (statement : Statement) :
    statement.tidyInner.length = statement.innerLines.length := by
  unfold tidyInner
  split
  · exact Specifiers.length_sort _
  · exact List.length_map ..

/-- A statement written anew takes as many lines. -/
theorem length_lines_normalized
    (statement : Statement) :
    statement.normalized.lines.length = statement.lines.length := by
  cases isLast : statement.rest.getLast? with
  | none =>
      have single := List.getLast?_eq_none_iff.mp isLast
      rw [normalized_of_single single, lines_of_single single]
      rfl
  | some last =>
      rw [normalized_of_last isLast, lines_of_last isLast]
      simp [lines, length_tidyInner]

theorem endsTight_of_mem_tidyInner
    {statement : Statement} {written : Text}
    (member : written ∈ statement.tidyInner) :
    EndsTight written := by
  unfold tidyInner at member
  split at member
  · exact Specifiers.endsTight_of_mem_sort member
  · obtain ⟨line, _, rfl⟩ := List.mem_map.mp member
    exact endsTight_stripRight line

theorem mem_of_mem_tidyInner
    {statement : Statement} {written : Text} {character : CodePoint}
    (member : written ∈ statement.tidyInner)
    (inWritten : character ∈ written) :
    character = ',' ∨ ∃ line ∈ statement.innerLines, character ∈ line := by
  unfold tidyInner at member
  split at member
  · exact Specifiers.mem_of_mem_sort member inWritten
  · obtain ⟨line, lineMember, rfl⟩ := List.mem_map.mp member
    exact Or.inr ⟨line, lineMember, (stripRight_sublist line).subset inWritten⟩

/-- Every line of a statement written anew ends in a character that is not blank. -/
theorem endsTight_of_mem_normalized
    {statement : Statement} {written : Text}
    (member : written ∈ statement.normalized.lines) :
    EndsTight written := by
  cases isLast : statement.rest.getLast? with
  | none =>
      rw [normalized_of_single (List.getLast?_eq_none_iff.mp isLast)] at member
      rw [List.mem_singleton.mp member]
      exact endsTight_strip _
  | some last =>
      rw [normalized_of_last isLast] at member
      rcases List.mem_cons.mp member with isFirst | inRest
      · rw [isFirst]
        exact endsTight_strip _
      · rcases List.mem_append.mp inRest with inInner | isFinal
        · exact endsTight_of_mem_tidyInner inInner
        · rw [List.mem_singleton.mp isFinal]
          exact endsTight_strip last

/-- A statement written anew holds commas and characters of the statement. -/
theorem mem_of_mem_normalized
    {statement : Statement} {written : Text} {character : CodePoint}
    (member : written ∈ statement.normalized.lines)
    (inWritten : character ∈ written) :
    character = ',' ∨ ∃ line ∈ statement.lines, character ∈ line := by
  have inFirst {part : Text} (sublist : part.Sublist statement.first)
      (inPart : character ∈ part) :
      character = ',' ∨ ∃ line ∈ statement.lines, character ∈ line :=
    Or.inr ⟨statement.first, List.mem_cons_self, sublist.subset inPart⟩
  cases isLast : statement.rest.getLast? with
  | none =>
      rw [normalized_of_single (List.getLast?_eq_none_iff.mp isLast)] at member
      rw [List.mem_singleton.mp member] at inWritten
      exact inFirst (strip_sublist _) inWritten
  | some last =>
      rw [normalized_of_last isLast] at member
      rcases List.mem_cons.mp member with isFirst | inRest
      · rw [isFirst] at inWritten
        exact inFirst (strip_sublist _) inWritten
      · rw [lines_of_last isLast]
        rcases List.mem_append.mp inRest with inInner | isFinal
        · rcases mem_of_mem_tidyInner inInner inWritten with isComma | ⟨line, lineMember, inLine⟩
          · exact Or.inl isComma
          · exact Or.inr ⟨line, by simp [lineMember], inLine⟩
        · rw [List.mem_singleton.mp isFinal] at inWritten
          exact Or.inr ⟨last, by simp, (strip_sublist last).subset inWritten⟩

/-- Writing a statement anew loses and gains blanks and commas only. -/
theorem filter_flatten_normalized
    {keep : CodePoint → Bool}
    (refuses : RefusesBlanks keep)
    (noComma : keep ',' = false)
    (statement : Statement) :
    (statement.normalized.lines.flatten.filter keep).Perm
      (statement.lines.flatten.filter keep) := by
  have inner :
      (statement.tidyInner.flatten.filter keep).Perm
        (statement.innerLines.flatten.filter keep) := by
    unfold tidyInner
    split
    · exact Specifiers.filter_flatten_sort refuses noComma _
    · apply List.Perm.of_eq
      simp only [List.filter_flatten, List.map_map, Function.comp_def,
        filter_stripRight refuses]
  cases isLast : statement.rest.getLast? with
  | none =>
      have single := List.getLast?_eq_none_iff.mp isLast
      rw [normalized_of_single single, lines_of_single single]
      simp [lines, filter_strip refuses]
  | some last =>
      rw [normalized_of_last isLast, lines_of_last isLast]
      simp only [lines, List.flatten_cons, List.flatten_append, List.filter_append,
        List.flatten_nil, List.append_nil, filter_strip refuses]
      exact (inner.append_right _).append_left _

end Statement

/-! ## Runs of statements -/

/-- Statements are cut from the lines without loss. -/
theorem flatMap_lines_statements
    (lines : List Text) :
    (statements lines).flatMap Statement.lines = lines := by
  fun_induction statements lines with
  | case1 =>
      rfl
  | case2 line following extra inductionHypothesis =>
      rw [List.flatMap_cons, inductionHypothesis, Statement.lines, List.cons_append,
        List.take_append_drop]

theorem longestFirst_perm
    (run : List Statement) :
    (longestFirst run).Perm run :=
  List.mergeSort_perm ..

/-- Every statement has its place in one of the groups. -/
theorem flatMap_group_perm
    (run : List Statement) :
    (Group.all.flatMap fun group => run.filter fun statement => statement.group == group).Perm
      run := by
  induction run with
  | nil =>
      exact List.Perm.refl []
  | cons statement rest inductionHypothesis =>
      refine List.Perm.trans ?_ (inductionHypothesis.cons statement)
      simp only [Group.all, List.flatMap_cons, List.flatMap_nil, List.append_nil]
      cases isGroup : statement.group with
      | typeOnly =>
          simp [isGroup]
      | singleLineBraced =>
          simp [isGroup]
      | multiLineBraced =>
          simp only [isGroup, List.filter_cons, beq_self_eq_true, beq_iff_eq, reduceCtorEq,
            if_true, if_false, List.cons_append]
          exact (List.perm_middle.append_left _).trans List.perm_middle
      | plain =>
          simp only [isGroup, List.filter_cons, beq_self_eq_true, beq_iff_eq, reduceCtorEq,
            if_true, if_false]
          exact (((List.perm_middle.append_left _).trans List.perm_middle).append_left _).trans
            List.perm_middle

/-- Ordering a run rearranges its statements as they are written anew. -/
theorem sort_perm
    (run : List Statement) :
    (sort run).Perm (run.map Statement.normalized) := by
  refine List.Perm.trans ?_ (flatMap_group_perm _)
  simp only [sort, Group.all, List.flatMap_cons, List.flatMap_nil, List.append_nil]
  exact (longestFirst_perm _).append ((longestFirst_perm _).append
    ((longestFirst_perm _).append (longestFirst_perm _)))

/-- A run of one braced import is written with its specifiers in order. -/
theorem sortLines_braced
    (first last : Text) (inner : List Text) {ordered : List Text}
    (cut : statements (first :: (inner ++ [last])) = [⟨first, inner ++ [last]⟩])
    (isBraced : Statement.group ⟨first, inner ++ [last]⟩ = .multiLineBraced)
    (noObstacle : Specifiers.obstacle? inner = none)
    (isOrdered : Specifiers.longestFirst (inner.map Specifiers.bare) = ordered) :
    sortLines (first :: (inner ++ [last])) =
      first.strip ::
        (Specifiers.attachCommas (Specifiers.endsWithComma inner) ordered ++ [last.strip]) := by
  have isSorted :
      sort [⟨first, inner ++ [last]⟩] = [Statement.normalized ⟨first, inner ++ [last]⟩] :=
    List.perm_singleton.mp (sort_perm _)
  rw [sortLines, cut, isSorted, List.flatMap_singleton,
    Statement.normalized_of_multiLineBraced List.getLast?_concat isBraced, Statement.innerLines,
    List.dropLast_concat, Statement.lines, Specifiers.sort_of_longestFirst inner noObstacle isOrdered]

/-- A line of an ordered run belongs to one of its statements. -/
theorem exists_of_mem_sortLines
    {lines : List Text} {written : Text}
    (member : written ∈ sortLines lines) :
    ∃ statement ∈ statements lines, written ∈ statement.normalized.lines := by
  obtain ⟨normal, normalMember, inLines⟩ := List.mem_flatMap.mp member
  obtain ⟨statement, statementMember, rfl⟩ :=
    List.mem_map.mp ((sort_perm _).mem_iff.mp normalMember)
  exact ⟨statement, statementMember, inLines⟩

@[simp]
theorem length_sortLines
    (lines : List Text) :
    (sortLines lines).length = lines.length := by
  have permuted := (sort_perm (statements lines)).flatMap_right Statement.lines
  have lengths := permuted.length_eq
  rw [sortLines, lengths, List.flatMap_map, List.length_flatMap]
  simp only [Statement.length_lines_normalized]
  rw [← List.length_flatMap, flatMap_lines_statements]

/-- The characters of an ordered run are commas and characters of its lines. -/
theorem mem_of_mem_sortLines
    {lines : List Text} {written : Text} {character : CodePoint}
    (member : written ∈ sortLines lines)
    (inWritten : character ∈ written) :
    character = ',' ∨ ∃ line ∈ lines, character ∈ line := by
  obtain ⟨statement, statementMember, inLines⟩ := exists_of_mem_sortLines member
  rcases Statement.mem_of_mem_normalized inLines inWritten with isComma | ⟨line, lineMember, inLine⟩
  · exact Or.inl isComma
  · refine Or.inr ⟨line, ?_, inLine⟩
    rw [← flatMap_lines_statements lines]
    exact List.mem_flatMap.mpr ⟨statement, statementMember, lineMember⟩

/-- Ordered lines end in characters that are not blank, and no line feed gets in. -/
theorem sortLines_clean
    {lines : List Text}
    (noFeed : ∀ line ∈ lines, CodePoint.scalar '\n' ∉ line) :
    ∀ line ∈ sortLines lines, CodePoint.scalar '\n' ∉ line ∧ EndsTight line := by
  intro written member
  constructor
  · intro isFeed
    rcases mem_of_mem_sortLines member isFeed with isComma | ⟨line, lineMember, inLine⟩
    · exact absurd isComma (by decide)
    · exact noFeed line lineMember inLine
  · obtain ⟨statement, _, inLines⟩ := exists_of_mem_sortLines member
    exact Statement.endsTight_of_mem_normalized inLines

theorem filter_flatten_map_normalized
    {keep : CodePoint → Bool}
    (refuses : RefusesBlanks keep)
    (noComma : keep ',' = false)
    (run : List Statement) :
    (((run.map Statement.normalized).flatMap Statement.lines).flatten.filter keep).Perm
      ((run.flatMap Statement.lines).flatten.filter keep) := by
  induction run with
  | nil =>
      exact List.Perm.refl []
  | cons statement rest inductionHypothesis =>
      have first := Statement.filter_flatten_normalized refuses noComma statement
      rw [List.map_cons, List.flatMap_cons, List.flatMap_cons, List.flatten_append,
        List.flatten_append, List.filter_append, List.filter_append]
      exact first.append inductionHypothesis

/-- Ordering a run loses and gains blanks and commas only. -/
theorem filter_flatten_sortLines
    {keep : CodePoint → Bool}
    (refuses : RefusesBlanks keep)
    (noComma : keep ',' = false)
    (lines : List Text) :
    ((sortLines lines).flatten.filter keep).Perm (lines.flatten.filter keep) := by
  have rearranged :
      (sortLines lines).flatten.Perm
        (((statements lines).map Statement.normalized).flatMap Statement.lines).flatten :=
    ((sort_perm _).flatMap_right Statement.lines).flatten
  refine (rearranged.filter keep).trans ?_
  have written := filter_flatten_map_normalized refuses noComma (statements lines)
  rw [flatMap_lines_statements] at written
  exact written

end Tidy.Import
