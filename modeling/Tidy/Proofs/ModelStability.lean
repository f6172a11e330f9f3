import Mathlib.Data.List.TakeWhile
import Tidy.Proofs.Edits
import Tidy.Proofs.Rereading

/-!
# Aligned models stay aligned

The search through a text with its models aligned comes upon the same bodies as before,
and there is nothing left to change, unless a declaration leaves a quoted string open.
Fields have to be indented: a field that starts with a closing brace would otherwise
close its own model.
-/

namespace Tidy

open Text

/-! ## Where a body ends -/

def keepsModelOpen (line : Text) : Bool :=
  line.head? != some (CodePoint.scalar '\x7d')

theorem modelBody?_eq
    (opening : Text) (following : List Text) :
    modelBody? opening following =
      if opening.closesBrace then none
      else if (following.takeWhile keepsModelOpen).length < following.length then
        some (following.takeWhile keepsModelOpen)
      else none := by
  have sameTest : (fun line : Text => !((['\x7d'] : Text).isPrefixOf line)) = keepsModelOpen := by
    funext line
    cases line with
    | nil =>
        rfl
    | cons first rest =>
        simp [keepsModelOpen, List.isPrefixOf, bne, BEq.comm]
  unfold modelBody?
  rw [sameTest]

/-- A body reaches up to the first line that starts with a closing brace. -/
theorem modelBody?_eq_some_iff
    {opening closing : Text} {body after : List Text} :
    modelBody? opening (body ++ closing :: after) = some body ↔
      opening.closesBrace = false ∧
        (∀ line ∈ body, keepsModelOpen line = true) ∧ keepsModelOpen closing = false := by
  rw [modelBody?_eq]
  constructor
  · intro isBody
    split_ifs at isBody with closesItself shorter
    have taken := Option.some.inj isBody
    have keepOpen : ∀ line ∈ body, keepsModelOpen line = true := by
      rw [← taken]
      exact fun line => List.mem_takeWhile_imp
    refine ⟨Bool.not_eq_true _ ▸ closesItself, keepOpen, ?_⟩
    by_contra goesOn
    rw [List.takeWhile_append_of_pos keepOpen,
      List.takeWhile_cons_of_pos (by simpa using goesOn)] at taken
    simp at taken
  · rintro ⟨opens, keepOpen, closes⟩
    have taken : (body ++ closing :: after).takeWhile keepsModelOpen = body := by
      rw [List.takeWhile_append_of_pos keepOpen,
        List.takeWhile_cons_of_neg (by simp [closes]), List.append_nil]
    simp [opens, taken]

theorem modelBody?_eq_none_iff
    {opening : Text} {following : List Text} :
    modelBody? opening following = none ↔
      opening.closesBrace = true ∨ ∀ line ∈ following, keepsModelOpen line = true := by
  rw [modelBody?_eq]
  by_cases closesItself : opening.closesBrace = true
  · simp [closesItself]
  · have wholeIff :
        (following.takeWhile keepsModelOpen).length < following.length ↔
          ¬ ∀ line ∈ following, keepsModelOpen line = true := by
      have isPrefix : following.takeWhile keepsModelOpen <+: following := List.takeWhile_prefix _
      rw [← List.takeWhile_eq_self_iff, isPrefix.length_le.lt_iff_ne]
      exact not_congr ⟨isPrefix.eq_of_length, congrArg List.length⟩
    simp [closesItself, wholeIff]

theorem Block.keepsModelOpen_align
    {options : Options} {lines : List Text}
    (indented : 1 ≤ options.fieldIndent)
    (keepOpen : ∀ line ∈ lines, keepsModelOpen line = true) :
    ∀ line ∈ align options lines, keepsModelOpen line = true := by
  have startsBlank : (ofLines options lines).indent.head? = some (CodePoint.scalar ' ') := by
    have positive : options.fieldIndent.toNat ≠ 0 := by omega
    exact List.head?_replicate.trans (if_neg positive)
  intro written member
  rw [align_eq_map] at member
  obtain ⟨line, lineMember, rfl⟩ := List.mem_map.mp member
  apply bne_iff_ne.mpr
  intro isClosing
  rcases head?_renderEntry startsBlank isClosing with isSpace | isFirst
  · exact absurd isSpace (by decide)
  · exact bne_iff_ne.mp (keepOpen line lineMember) isFirst

namespace Scanned

variable {options : Options} {index : Nat} {lines written : List Text} {found : List Finding}

theorem keepsModelOpen_written
    (scanned : Scanned true false options index lines found written)
    (keepOpen : ∀ line ∈ lines, keepsModelOpen line = true) :
    ∀ line ∈ written, keepsModelOpen line = true := by
  induction scanned with
  | nothing index =>
      exact keepOpen
  | line _ _ _ inductionHypothesis =>
      obtain ⟨first, later⟩ := List.forall_mem_cons.mp keepOpen
      exact List.forall_mem_cons.mpr ⟨first, inductionHypothesis later⟩
  | unclosedModel _ _ _ inductionHypothesis =>
      obtain ⟨first, later⟩ := List.forall_mem_cons.mp keepOpen
      exact List.forall_mem_cons.mpr ⟨first, inductionHypothesis later⟩
  | @model _ _ closing _ _ _ _ _ isBody _ _ =>
      obtain ⟨_, _, isClosing⟩ := modelBody?_eq_some_iff.mp isBody
      have isOpen : keepsModelOpen closing = true := keepOpen closing (by simp)
      rw [isClosing] at isOpen
      cases isOpen
  | unfinishedImport _ isStart _ _ _ =>
      cases isStart
  | imports _ isStart _ _ _ =>
      cases isStart

/-- The new lines are searched with nothing to change. -/
theorem exists_aligned
    (scanned : Scanned true false options index lines found written)
    (indented : 1 ≤ options.fieldIndent)
    (closed : ∀ finding ∈ found, Block.QuotesClosed options finding.region) :
    ∃ again, Scanned true false options index written again written := by
  induction scanned with
  | nothing index =>
      exact ⟨[], .nothing index⟩
  | line notModel notStart _ inductionHypothesis =>
      obtain ⟨again, settled⟩ := inductionHypothesis closed
      exact ⟨again, .line notModel notStart settled⟩
  | unclosedModel isModel noBody scanned inductionHypothesis =>
      obtain ⟨again, settled⟩ := inductionHypothesis (List.forall_mem_cons.mp closed).2
      have stillNoBody := modelBody?_eq_none_iff.mpr
        ((modelBody?_eq_none_iff.mp noBody).imp_right scanned.keepsModelOpen_written)
      exact ⟨_, .unclosedModel isModel stillNoBody settled⟩
  | @model index opening closing body after written found isModel isBody _ inductionHypothesis =>
      obtain ⟨bodyClosed, laterClosed⟩ := List.forall_mem_cons.mp closed
      obtain ⟨again, settled⟩ := inductionHypothesis laterClosed
      obtain ⟨opens, keepOpen, isClosing⟩ := modelBody?_eq_some_iff.mp isBody
      have sameBody :
          modelBody? opening (Block.align options body ++ closing :: written) =
            some (Block.align options body) :=
        modelBody?_eq_some_iff.mpr ⟨opens, Block.keepsModelOpen_align indented keepOpen, isClosing⟩
      rw [← Block.length_align options body] at settled
      have aligned := model isModel sameBody settled
      have fixed : Block.align options (Block.align options body) = Block.align options body :=
        Block.align_align bodyClosed
      rw [fixed] at aligned
      exact ⟨_, aligned⟩
  | unfinishedImport _ isStart _ _ _ =>
      cases isStart
  | imports _ isStart _ _ _ =>
      cases isStart

theorem written_eq_of_noFields
    (scanned : Scanned true false options index lines found written)
    (noFields : ∀ finding ∈ found, finding.laysOutFields = false) :
    written = lines := by
  induction scanned with
  | nothing index =>
      rfl
  | line _ _ _ inductionHypothesis =>
      rw [inductionHypothesis noFields]
  | unclosedModel _ _ _ inductionHypothesis =>
      rw [inductionHypothesis (List.forall_mem_cons.mp noFields).2]
  | @model _ _ _ body _ _ _ _ _ _ inductionHypothesis =>
      obtain ⟨isEmpty, later⟩ := List.forall_mem_cons.mp noFields
      have noBody : body = [] := by
        simpa [Finding.laysOutFields] using isEmpty
      rw [inductionHypothesis later, noBody]
      rfl
  | unfinishedImport _ isStart _ _ _ =>
      cases isStart
  | imports _ isStart _ _ _ =>
      cases isStart

end Scanned

/-! ## Formatting models twice -/

def modelLines (text : Text) : List Text :=
  (findings [Formatter.formatModelFields.name] (Source.ofText text)).flatMap Finding.region

/-- When fields are indented and no declaration leaves a quoted string open, models that
are formatted have no edits left, and formatting them again changes nothing. -/
theorem formatModelFields_stable
    (options : Options) (text : Text)
    (indented : 1 ≤ options.fieldIndent)
    (closed : Block.QuotesClosed options (modelLines text)) :
    scan options [Formatter.formatModelFields.name]
        (format options [Formatter.formatModelFields.name] text) = [] ∧
      format options [Formatter.formatModelFields.name]
          (format options [Formatter.formatModelFields.name] text) =
        format options [Formatter.formatModelFields.name] text ∧
      ((Scan.ofText options [Formatter.formatModelFields.name] text).edits =
            .ok (scan options [Formatter.formatModelFields.name] text) ∧
          (Scan.ofText options [Formatter.formatModelFields.name]
            (format options [Formatter.formatModelFields.name] text)).edits = .ok [] ∨
        ∃ fault, options.indentFault? = some fault ∧
          (Scan.ofText options [Formatter.formatModelFields.name] text).edits =
            .error fault) := by
  have scanned := scanned_relaidLines options [Formatter.formatModelFields.name] text
  have regionsClosed :
      ∀ finding ∈ findings [Formatter.formatModelFields.name] (Source.ofText text),
        Block.QuotesClosed options finding.region := by
    intro finding findingMember line lineMember
    exact closed line (List.mem_flatMap.mpr ⟨finding, findingMember, lineMember⟩)
  obtain ⟨again, settled⟩ := Scanned.exists_aligned scanned indented regionsClosed
  rw [← texts_format] at settled
  have noEdits :
      scan options [Formatter.formatModelFields.name]
        (format options [Formatter.formatModelFields.name] text) = [] :=
    scan_eq_nil_of_scanned settled
  refine ⟨noEdits, format_of_scan_eq_nil noEdits, ?_⟩
  rcases Scan.edits_cases options [Formatter.formatModelFields.name] text with
    ⟨isScanned, writable | noFields⟩ | failed
  · refine Or.inl ⟨isScanned, ?_⟩
    rw [Scan.edits_of_indent writable, noEdits]
  · have unchanged := scanned.written_eq_of_noFields noFields
    rw [unchanged] at scanned
    have noEditsYet : scan options [Formatter.formatModelFields.name] text = [] :=
      scan_eq_nil_of_scanned scanned
    rw [format_of_scan_eq_nil noEditsYet, isScanned, noEditsYet]
    exact Or.inl ⟨rfl, rfl⟩
  · exact Or.inr failed

/-- A body with quoted signs and quotes, a location tag to move, a name that is a closing
brace and lines that are no declarations; then a model on one line and one that is not
closed. -/
def scatteredModels : Text :=
  ("model A \x7b\r\n id\tString  @default( \"a  @ \\\" b\" )  @map('x')\n" ++
    "  \x7d  Int\n// the field's name\n@@index  [id]  \r\n\n\x7d\nmodel B \x7b c d \x7d\n" ++
    "model C \x7b\n x   y")

theorem formatModelFields_stable_scattered :
    modelLines scatteredModels =
        ([" id\tString  @default( \"a  @ \\\" b\" )  @map('x')", "  \x7d  Int",
          "// the field's name", "@@index  [id]  ", []] : List Text) ∧
      Block.align {} (modelLines scatteredModels) =
        (["  id String @map('x') @default( \"a  @ \\\" b\" )", "  \x7d  Int",
          "// the field's name", "  @@index [id]", []] : List Text) ∧
      scan {} [Formatter.formatModelFields.name]
        (format {} [Formatter.formatModelFields.name] scatteredModels) = [] := by
  have lines :
      modelLines scatteredModels =
        ([" id\tString  @default( \"a  @ \\\" b\" )  @map('x')", "  \x7d  Int",
          "// the field's name", "@@index  [id]  ", []] : List Text) := by
    decide +kernel
  have closed :
      ∀ line ∈ modelLines scatteredModels, (Field.parse {} line).isOk = true →
        Field.leavesQuoteOpen line = false := by
    rw [lines]
    decide
  refine ⟨lines, by rw [lines]; decide,
    (formatModelFields_stable {} scatteredModels (by decide) ?_).1⟩
  intro line member field parsed
  exact closed line member (by rw [parsed]; rfl)

end Tidy
