import Tidy.Proofs.LineWise

/-!
# Formatting keeps the content

What a test refuses blanks and commas for is neither lost nor gained: laying out
fields moves characters and blanks only, and ordering imports moves characters,
blanks and commas only.
-/

namespace Tidy

open Patch Text

/-! ## Lines and their endings -/

theorem Ending.isBlank_of_mem
    {ending : Ending} {character : CodePoint}
    (member : character ∈ ending.text) :
    isBlank character = true := by
  cases ending with
  | none =>
      cases member
  | feed =>
      rw [List.mem_singleton.mp member]
      decide
  | returnFeed =>
      rcases List.mem_cons.mp member with rfl | isFeed
      · decide
      · rw [List.mem_singleton.mp isFeed]
        decide
  | carriageReturn =>
      rw [List.mem_singleton.mp member]
      decide

/-- Endings are blank, so that only the lines count. -/
theorem Line.filter_join
    {keep : CodePoint → Bool} (refuses : RefusesBlanks keep)
    (lines : List Line) :
    (join lines).filter keep = (lines.map Line.text).flatten.filter keep := by
  induction lines with
  | nil =>
      rfl
  | cons line rest inductionHypothesis =>
      have noEnding : line.ending.text.filter keep = [] :=
        filter_of_blank refuses fun _ member => Ending.isBlank_of_mem member
      rw [join_cons, List.map_cons, List.flatten_cons, List.filter_append, List.filter_append,
        List.filter_append, noEnding, List.append_nil, inductionHypothesis]

theorem filter_texts_ofText
    {keep : CodePoint → Bool} (refuses : RefusesBlanks keep)
    (text : Text) :
    (Source.ofText text).texts.flatten.filter keep = text.filter keep := by
  have joined := Line.filter_join refuses (Line.ofFeeds text)
  rw [Line.join_ofFeeds] at joined
  exact joined.symm

/-! ## Regions -/

theorem Block.filter_flatten_align
    {keep : CodePoint → Bool} (refuses : RefusesBlanks keep)
    (options : Options) (lines : List Text) :
    ((align options lines).flatten.filter keep).Perm (lines.flatten.filter keep) := by
  rw [align_eq_map]
  have spaces := indent_ofLines options lines
  -- The widths come from all lines, and are no matter to what a single line holds.
  generalize ofLines options lines = block at spaces ⊢
  induction lines with
  | nil =>
      exact List.Perm.refl []
  | cons line rest inductionHypothesis =>
      rw [List.map_cons, List.flatten_cons, List.flatten_cons, List.filter_append,
        List.filter_append]
      exact (filter_renderEntry refuses spaces options line).append inductionHypothesis

/-- Writing the regions anew keeps what blanks are not, and commas too when no
imports are looked for. -/
theorem Scanned.filter_flatten_perm
    {models imports : Bool} {options : Options} {index : Nat} {lines written : List Text}
    {found : List Finding}
    (scanned : Scanned models imports options index lines found written)
    {keep : CodePoint → Bool} (refuses : RefusesBlanks keep)
    (commas : imports = true → keep ',' = false) :
    (written.flatten.filter keep).Perm (lines.flatten.filter keep) := by
  induction scanned with
  | nothing index =>
      exact List.Perm.refl []
  | line _ _ _ inductionHypothesis =>
      simp only [List.flatten_cons, List.filter_append]
      exact inductionHypothesis.append_left _
  | unclosedModel _ _ _ inductionHypothesis =>
      simp only [List.flatten_cons, List.filter_append]
      exact inductionHypothesis.append_left _
  | @model _ _ _ body _ _ _ _ _ _ inductionHypothesis =>
      simp only [List.flatten_cons, List.flatten_append, List.filter_append]
      exact List.Perm.append_left _
        ((Block.filter_flatten_align refuses options body).append
          (inductionHypothesis.append_left _))
  | unfinishedImport _ _ _ _ inductionHypothesis =>
      simp only [List.flatten_cons, List.filter_append]
      exact inductionHypothesis.append_left _
  | @imports _ head tail _ _ _ _ isStart _ _ inductionHypothesis =>
      have noComma : keep ',' = false := commas (Bool.and_eq_true_iff.mp isStart).1
      rw [← List.cons_append, List.flatten_append, List.flatten_append, List.filter_append,
        List.filter_append]
      exact (Import.filter_flatten_sortLines refuses noComma (head :: tail)).append
        inductionHypothesis

/-! ## Texts -/

theorem filter_format_perm
    (options : Options) {passes : List String} (text : Text)
    {keep : CodePoint → Bool} (refuses : RefusesBlanks keep)
    (commas : passes.contains Formatter.sortImports.name = true → keep ',' = false) :
    ((format options passes text).filter keep).Perm (text.filter keep) := by
  have relaidPerm := (scanned_relaidLines options passes text).filter_flatten_perm refuses commas
  rw [filter_texts_ofText refuses, ← texts_format, filter_texts_ofText refuses] at relaidPerm
  exact relaidPerm

/-- Formatting loses and gains nothing but blanks and commas, and it keeps every comma
unless imports are ordered. -/
theorem format_keeps_content
    (options : Options) (passes : List String) (text : Text) :
    ((format options passes text).filter fun character =>
        !isBlank character && character != ',').Perm
      (text.filter fun character => !isBlank character && character != ',') ∧
    (passes.contains Formatter.sortImports.name = false →
      ((format options passes text).filter fun character => !isBlank character).Perm
        (text.filter fun character => !isBlank character)) := by
  constructor
  · apply filter_format_perm options text
    · intro character blank
      simp [blank]
    · intro _
      rfl
  · intro noImports
    apply filter_format_perm options text
    · intro character blank
      simp [blank]
    · intro imports
      rw [noImports] at imports
      cases imports

end Tidy
