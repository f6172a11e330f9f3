import Tidy.Proofs.Alignment
import Tidy.Proofs.Runs
import Tidy.Proofs.Weave
import Tidy.Region

/-!
# Regions of the lines

The findings of a search are stretches of the lines, one behind the other.  Each
of them is a patch of the lines, and `Scanned` tells the search as a relation:
which lines are copied, and which ones are written anew.
-/

namespace Tidy

open Patch

/-! ## How far bodies reach -/

theorem modelBody?_eq_some
    {opening : Text} {following body : List Text}
    (isBody : modelBody? opening following = some body) :
    body = following.take body.length ∧ body.length < following.length := by
  unfold modelBody? at isBody
  split at isBody
  · cases isBody
  · simp only at isBody
    split at isBody
    · rename_i shorter
      cases isBody
      exact ⟨List.prefix_iff_eq_take.mp (List.takeWhile_prefix _), shorter⟩
    · cases isBody

/-! ## Findings as patches -/

namespace Finding

def first : Finding → Nat
  | .model first _ => first
  | .imports first _ => first
  | .unclosedModel line => line
  | .unfinishedImport line => line

def region : Finding → List Text
  | .model _ body => body
  | .imports _ run => run
  | .unclosedModel _ => []
  | .unfinishedImport _ => []

def rewritten (options : Options) : Finding → List Text
  | .model _ body => Block.align options body
  | .imports _ run => Import.sortLines run
  | .unclosedModel _ => []
  | .unfinishedImport _ => []

def patch (options : Options) (finding : Finding) : Patch Text :=
  ⟨finding.first, finding.first + finding.region.length, finding.rewritten options⟩

@[simp]
theorem length_rewritten
    (options : Options) (finding : Finding) :
    (finding.rewritten options).length = finding.region.length := by
  cases finding with
  | model first body =>
      exact Block.length_align options body
  | imports first run =>
      exact Import.length_sortLines run
  | unclosedModel line =>
      rfl
  | unfinishedImport line =>
      rfl

/-- A finding is formatted by its patch. -/
theorem edit?_eq_editOf?
    (options : Options) (source : Source) (finding : Finding) :
    finding.edit? options source = source.editOf? (finding.patch options) := by
  cases finding with
  | model first body =>
      rfl
  | imports first run =>
      rfl
  | unclosedModel line =>
      exact (Source.editOf?_eq_none (by simp [patch, Source.replaced, rewritten, region])).symm
  | unfinishedImport line =>
      exact (Source.editOf?_eq_none (by simp [patch, Source.replaced, rewritten, region])).symm

theorem filterMap_edit?
    (options : Options) (source : Source) (found : List Finding) :
    found.filterMap (edit? options source) = source.editsOf (found.map (patch options)) := by
  have sameEdits : edit? options source = source.editOf? ∘ patch options :=
    funext (edit?_eq_editOf? options source)
  rw [Source.editsOf, List.filterMap_map, sameEdits]

/-- A finding at the position is written first. -/
theorem splice_map_cons
    (options : Options) (lines : List Text) (finding : Finding) (rest : List Finding) :
    splice lines finding.first ((finding :: rest).map (patch options)) =
      finding.rewritten options ++
        splice lines (finding.first + finding.region.length) (rest.map (patch options)) :=
  splice_cons_here lines (finding.patch options) (rest.map (patch options)) rfl

/-- A line of the region, counted from zero. -/
def Covers (finding : Finding) (index : Nat) : Prop :=
  finding.first ≤ index ∧ index < finding.first + finding.region.length

end Finding

/-! ## The search as a relation -/

/-- What the search finds in lines from line `index` on, and what the lines become
when every region is written anew. -/
inductive Scanned (models imports : Bool) (options : Options) :
    Nat → List Text → List Finding → List Text → Prop
  | nothing (index : Nat) :
      Scanned models imports options index [] [] []
  | line {index : Nat} {line : Text} {following written : List Text} {found : List Finding} :
      (models && isModelStart line) = false →
      (imports && Import.isStart line) = false →
      Scanned models imports options (index + 1) following found written →
      Scanned models imports options index (line :: following) found (line :: written)
  | unclosedModel {index : Nat} {opening : Text} {following written : List Text}
      {found : List Finding} :
      (models && isModelStart opening) = true →
      modelBody? opening following = none →
      Scanned models imports options (index + 1) following found written →
      Scanned models imports options index (opening :: following)
        (.unclosedModel index :: found) (opening :: written)
  | model {index : Nat} {opening closing : Text} {body after written : List Text}
      {found : List Finding} :
      (models && isModelStart opening) = true →
      modelBody? opening (body ++ closing :: after) = some body →
      Scanned models imports options (index + 1 + body.length + 1) after found written →
      Scanned models imports options index (opening :: (body ++ closing :: after))
        (.model (index + 1) body :: found)
        (opening :: (Block.align options body ++ closing :: written))
  | unfinishedImport {index : Nat} {line : Text} {following written : List Text}
      {found : List Finding} :
      (models && isModelStart line) = false →
      (imports && Import.isStart line) = true →
      Import.runLength (line :: following) = 0 →
      Scanned models imports options (index + 1) following found written →
      Scanned models imports options index (line :: following)
        (.unfinishedImport index :: found) (line :: written)
  | imports {index : Nat} {head : Text} {tail after written : List Text}
      {found : List Finding} :
      (models && isModelStart head) = false →
      (imports && Import.isStart head) = true →
      Import.runLength (head :: (tail ++ after)) = tail.length + 1 →
      Scanned models imports options (index + tail.length + 1) after found written →
      Scanned models imports options index (head :: (tail ++ after))
        (.imports index (head :: tail) :: found)
        (Import.sortLines (head :: tail) ++ written)

namespace Scanned

variable {models imports : Bool} {options : Options}

/-- The search is described by the relation. -/
theorem exists_of_search
    (models imports : Bool) (options : Options) (index : Nat) (lines : List Text) :
    ∃ written,
      Scanned models imports options index lines
        (Finding.search models imports index lines) written := by
  fun_induction Finding.search models imports index lines with
  | case1 index =>
      exact ⟨[], nothing index⟩
  | case2 index opening following isModel noBody inductionHypothesis =>
      obtain ⟨written, scanned⟩ := inductionHypothesis
      exact ⟨opening :: written, unclosedModel isModel noBody scanned⟩
  | case3 index opening following isModel body isBody inductionHypothesis =>
      obtain ⟨written, scanned⟩ := inductionHypothesis
      obtain ⟨taken, shorter⟩ := modelBody?_eq_some isBody
      have split : following = body ++ following.drop body.length := by
        conv => lhs; rw [← List.take_append_drop body.length following, ← taken]
      obtain ⟨closing, after, shape⟩ :
          ∃ closing after, following.drop body.length = closing :: after :=
        List.exists_cons_of_ne_nil (by simp [List.drop_eq_nil_iff]; omega)
      have rest : following.drop (body.length + 1) = after := by
        rw [← List.drop_drop, shape]
        rfl
      rw [rest] at scanned ⊢
      rw [shape] at split
      rw [split] at isBody ⊢
      exact ⟨_, model isModel isBody scanned⟩
  | case4 index line following notModel isStart isUnfinished inductionHypothesis =>
      obtain ⟨written, scanned⟩ := inductionHypothesis
      exact ⟨line :: written,
        unfinishedImport (by simpa using notModel) isStart isUnfinished scanned⟩
  | case5 index line following notModel isStart extra isRun inductionHypothesis =>
      obtain ⟨written, scanned⟩ := inductionHypothesis
      have bound := Import.runLength_le (line :: following)
      have takenLength : (following.take extra).length = extra := by
        rw [List.length_take]
        simp only [List.length_cons] at bound
        omega
      have whole : line :: following = line :: (following.take extra ++ following.drop extra) := by
        rw [List.take_append_drop]
      have isWhole :
          Import.runLength (line :: (following.take extra ++ following.drop extra)) =
            (following.take extra).length + 1 := by
        rw [← whole, isRun, takenLength]
      rw [← takenLength] at scanned
      refine ⟨Import.sortLines (line :: following.take extra) ++ written, ?_⟩
      conv => arg 5; rw [whole]
      exact .imports (by simpa using notModel) isStart isWhole (by
        rw [takenLength] at scanned ⊢; exact scanned)
  | case6 index line following notModel notStart inductionHypothesis =>
      obtain ⟨written, scanned⟩ := inductionHypothesis
      exact ⟨line :: written,
        .line (by simpa using notModel) (by simpa using notStart) scanned⟩

/-- The relation has no other findings than the search. -/
theorem eq_search
    {index : Nat} {lines written : List Text} {found : List Finding}
    (scanned : Scanned models imports options index lines found written) :
    Finding.search models imports index lines = found := by
  induction scanned with
  | nothing index =>
      rw [Finding.search]
  | line notModel notStart _ inductionHypothesis =>
      rw [Finding.search, if_neg (by simp [notModel]), if_neg (by simp [notStart]),
        inductionHypothesis]
  | unclosedModel isModel noBody _ inductionHypothesis =>
      rw [Finding.search, if_pos isModel, noBody]
      simp only [inductionHypothesis]
  | @model _ _ closing body after _ _ isModel isBody _ inductionHypothesis =>
      have rest : (body ++ closing :: after).drop (body.length + 1) = after := by
        rw [← List.drop_drop, List.drop_left]
        rfl
      rw [Finding.search, if_pos isModel, isBody]
      simp only [rest, inductionHypothesis]
  | unfinishedImport notModel isStart isUnfinished _ inductionHypothesis =>
      rw [Finding.search, if_neg (by simp [notModel]), if_pos isStart, isUnfinished]
      simp only [inductionHypothesis]
  | imports notModel isStart isRun _ inductionHypothesis =>
      rw [Finding.search, if_neg (by simp [notModel]), if_pos isStart, isRun]
      simp only [List.take_left, List.drop_left, inductionHypothesis]

/-- A region consists of lines that were searched. -/
theorem mem_of_mem_region
    {index : Nat} {lines written : List Text} {found : List Finding}
    (scanned : Scanned models imports options index lines found written)
    {finding : Finding} (member : finding ∈ found)
    {text : Text} (inRegion : text ∈ finding.region) :
    text ∈ lines := by
  induction scanned with
  | nothing index =>
      cases member
  | line _ _ _ inductionHypothesis =>
      exact List.mem_cons_of_mem _ (inductionHypothesis member)
  | unclosedModel _ _ _ inductionHypothesis =>
      rcases List.mem_cons.mp member with rfl | later
      · cases inRegion
      · exact List.mem_cons_of_mem _ (inductionHypothesis later)
  | model _ _ _ inductionHypothesis =>
      rcases List.mem_cons.mp member with rfl | later
      · exact List.mem_cons_of_mem _ (List.mem_append_left _ inRegion)
      · exact List.mem_cons_of_mem _
          (List.mem_append_right _ (List.mem_cons_of_mem _ (inductionHypothesis later)))
  | unfinishedImport _ _ _ _ inductionHypothesis =>
      rcases List.mem_cons.mp member with rfl | later
      · cases inRegion
      · exact List.mem_cons_of_mem _ (inductionHypothesis later)
  | imports _ _ _ _ inductionHypothesis =>
      rw [← List.cons_append]
      rcases List.mem_cons.mp member with rfl | later
      · exact List.mem_append_left _ inRegion
      · exact List.mem_append_right _ (inductionHypothesis later)

/-- A region is the stretch of the lines that the finding names. -/
theorem region_eq
    {index : Nat} {lines written : List Text} {found : List Finding}
    (scanned : Scanned models imports options index lines found written)
    {front : List Text} (frontLength : front.length = index)
    {finding : Finding} (member : finding ∈ found) :
    ((front ++ lines).take (finding.first + finding.region.length)).drop finding.first =
      finding.region := by
  have empty (whole : List Text) (position : Nat) :
      (whole.take (position + 0)).drop position = [] :=
    List.drop_eq_nil_of_le (List.length_take_le ..)
  have stretch (before region behind : List Text) :
      ((before ++ (region ++ behind)).take (before.length + region.length)).drop before.length =
        region := by
    rw [List.take_length_add_append, List.drop_left, List.take_left]
  induction scanned generalizing front with
  | nothing index =>
      cases member
  | @line index line following _ _ _ _ _ inductionHypothesis =>
      rw [List.append_cons]
      exact inductionHypothesis (by simp [frontLength]) member
  | @unclosedModel index opening following _ _ _ _ _ inductionHypothesis =>
      rcases List.mem_cons.mp member with rfl | later
      · exact empty ..
      · rw [List.append_cons]
        exact inductionHypothesis (by simp [frontLength]) later
  | @model index opening closing body after _ _ _ _ _ inductionHypothesis =>
      have openingLength : (front ++ [opening]).length = index + 1 := by simp [frontLength]
      rcases List.mem_cons.mp member with rfl | later
      · rw [List.append_cons]
        simp only [Finding.first, Finding.region, ← openingLength]
        exact stretch ..
      · have regrouped :
            front ++ opening :: (body ++ closing :: after) =
              (front ++ opening :: (body ++ [closing])) ++ after := by
          simp
        rw [regrouped]
        refine inductionHypothesis ?_ later
        simp only [List.length_append, List.length_cons, List.length_nil, frontLength]
        omega
  | @unfinishedImport index line following _ _ _ _ _ _ inductionHypothesis =>
      rcases List.mem_cons.mp member with rfl | later
      · exact empty ..
      · rw [List.append_cons]
        exact inductionHypothesis (by simp [frontLength]) later
  | @imports index head tail after _ _ _ _ _ _ inductionHypothesis =>
      rw [← List.cons_append]
      rcases List.mem_cons.mp member with rfl | later
      · simp only [Finding.first, Finding.region, ← frontLength]
        exact stretch ..
      · rw [← List.append_assoc]
        refine inductionHypothesis ?_ later
        simp only [List.length_append, List.length_cons, frontLength]
        omega

/-- The findings stand in the lines one behind the other. -/
theorem inOrder
    {index : Nat} {lines written : List Text} {found : List Finding}
    (scanned : Scanned models imports options index lines found written) :
    InOrder (index + lines.length) index (found.map (Finding.patch options)) := by
  induction scanned with
  | nothing index =>
      exact Nat.le_refl index
  | line _ _ _ inductionHypothesis =>
      rw [List.length_cons, ← Nat.succ_add_eq_add_succ]
      exact inductionHypothesis.of_le (Nat.le_succ _)
  | unclosedModel _ _ _ inductionHypothesis =>
      rw [List.length_cons, ← Nat.succ_add_eq_add_succ]
      exact ⟨Nat.le_refl _, Nat.le_refl _, inductionHypothesis.of_le (Nat.le_succ _)⟩
  | @model index _ closing body after _ _ _ _ _ inductionHypothesis =>
      have limit :
          index + (body ++ closing :: after).length + 1 =
            index + 1 + body.length + 1 + after.length := by
        rw [List.length_append, List.length_cons]
        omega
      rw [List.length_cons, ← Nat.add_assoc, limit]
      exact ⟨Nat.le_succ _, Nat.le_add_right .., inductionHypothesis.of_le (Nat.le_succ _)⟩
  | unfinishedImport _ _ _ _ inductionHypothesis =>
      rw [List.length_cons, ← Nat.succ_add_eq_add_succ]
      exact ⟨Nat.le_refl _, Nat.le_refl _, inductionHypothesis.of_le (Nat.le_succ _)⟩
  | @imports index head tail after _ _ _ _ _ _ inductionHypothesis =>
      have limit :
          index + (head :: (tail ++ after)).length = index + tail.length + 1 + after.length := by
        rw [List.length_cons, List.length_append]
        omega
      rw [limit]
      exact ⟨Nat.le_refl _, Nat.le_add_right .., inductionHypothesis⟩

/-- Splicing the patches of the findings gives the lines that the relation tells. -/
theorem splice_eq
    {index : Nat} {lines written : List Text} {found : List Finding}
    (scanned : Scanned models imports options index lines found written)
    {front : List Text} (frontLength : front.length = index) :
    splice (front ++ lines) index (found.map (Finding.patch options)) = written := by
  induction scanned generalizing front with
  | nothing index =>
      rw [List.append_nil, ← frontLength]
      exact List.drop_length
  | @line index line following written found _ _ scanned inductionHypothesis =>
      rw [splice_copy line frontLength scanned.inOrder, inductionHypothesis (by simp [frontLength])]
  | @unclosedModel index opening following written found _ _ scanned inductionHypothesis =>
      calc
        _ = splice (front ++ opening :: following) index (found.map (Finding.patch options)) :=
          Finding.splice_map_cons options _ (.unclosedModel index) found
        _ = opening :: written := by
          rw [splice_copy opening frontLength scanned.inOrder,
            inductionHypothesis (by simp [frontLength])]
  | @model index opening closing body after written found isModel isBody scanned
      inductionHypothesis =>
      have bodyLength : (front ++ opening :: body).length = index + 1 + body.length := by
        rw [List.length_append, List.length_cons, frontLength]
        omega
      have regrouped :
          (front ++ [opening]) ++ (body ++ closing :: after) =
            (front ++ opening :: body) ++ closing :: after := by
        simp
      have bodyInOrder :
          InOrder (index + 1 + (body ++ closing :: after).length) (index + 1)
            ((Finding.model (index + 1) body :: found).map (Finding.patch options)) := by
        have limit :
            index + 1 + (body ++ closing :: after).length =
              index + 1 + body.length + 1 + after.length := by
          rw [List.length_append, List.length_cons]
          omega
        rw [limit]
        exact ⟨Nat.le_refl _, Nat.le_add_right .., scanned.inOrder.of_le (Nat.le_succ _)⟩
      have fromBody :
          splice ((front ++ [opening]) ++ (body ++ closing :: after)) (index + 1)
              ((Finding.model (index + 1) body :: found).map (Finding.patch options)) =
            Block.align options body ++
              splice ((front ++ [opening]) ++ (body ++ closing :: after))
                (index + 1 + body.length) (found.map (Finding.patch options)) :=
        Finding.splice_map_cons options _ (.model (index + 1) body) found
      rw [splice_copy opening frontLength bodyInOrder, fromBody, regrouped,
        splice_copy closing bodyLength scanned.inOrder,
        inductionHypothesis (by rw [List.length_append, bodyLength, List.length_singleton])]
  | @unfinishedImport index line following written found _ _ _ scanned inductionHypothesis =>
      calc
        _ = splice (front ++ line :: following) index (found.map (Finding.patch options)) :=
          Finding.splice_map_cons options _ (.unfinishedImport index) found
        _ = line :: written := by
          rw [splice_copy line frontLength scanned.inOrder,
            inductionHypothesis (by simp [frontLength])]
  | @imports index head tail after written found _ _ _ scanned inductionHypothesis =>
      have regrouped : front ++ head :: (tail ++ after) = (front ++ head :: tail) ++ after := by
        simp
      have runLength : (front ++ head :: tail).length = index + tail.length + 1 := by
        rw [List.length_append, List.length_cons, frontLength]
        omega
      calc
        _ = Import.sortLines (head :: tail) ++
              splice (front ++ head :: (tail ++ after)) (index + tail.length + 1)
                (found.map (Finding.patch options)) :=
          Finding.splice_map_cons options _ (.imports index (head :: tail)) found
        _ = Import.sortLines (head :: tail) ++ written := by
          rw [regrouped, inductionHypothesis runLength]

end Scanned

end Tidy
