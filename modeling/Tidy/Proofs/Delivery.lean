import Tidy.Proofs.Actions
import Tidy.Proofs.Edits
import Tidy.Proofs.Synchronization
import Tidy.Workspace.Command

/-!
# Edits that reach the editor

The edits of a scan start where a line starts and stop where the characters of a
line end, so that they survive the way through positions and back.  What a
formatting request answers and what a command sends to its client therefore turns
the text of the document into the formatted text.
-/

namespace Tidy

open Patch

/-! ## Edits in terms of positions -/

namespace Document

open Outcome

/-- The stretch of the text that an edit replaces, by the offsets of its positions. -/
def resolve (document : Document) (edit : TextEdit) : Except Fault (Patch CodePoint) := do
  let start ← document.offsetAt edit.range.start
  let stop ← document.offsetAt edit.range.stop
  return ⟨start, stop, edit.text⟩

/-- Whether edits lead to stretches that stand one behind the other and, replaced all at
once, turn the text of the document into the given one. -/
def Turns (document : Document) (edits : List TextEdit) (text : Text) : Prop :=
  ∃ patches, edits.mapM document.resolve = .ok patches ∧
    InOrder document.text.length 0 patches ∧ splice document.text 0 patches = text

/-- Ranges lead back to the offsets that they are made from. -/
theorem resolve_of_textEdit
    {document : Document} {edit : Edit} {textEdit : TextEdit}
    (tabled : document.Tabled)
    (fits : edit.start.toNat ≤ document.text.length ∧ edit.stop.toNat ≤ document.text.length)
    (fromFront : 0 ≤ edit.start ∧ 0 ≤ edit.stop)
    (startWhole : ¬ document.text.SplitsReturnFeed edit.start.toNat)
    (stopWhole : ¬ document.text.SplitsReturnFeed edit.stop.toNat)
    (told : document.textEdit edit = .ok textEdit) :
    document.resolve textEdit = .ok edit.patch := by
  obtain ⟨range, isRange, rfl⟩ := bind_pure_eq_ok_iff.mp told
  obtain ⟨start, isStart, isRange⟩ := bind_eq_ok_iff.mp isRange
  obtain ⟨stop, isStop, rfl⟩ := bind_pure_eq_ok_iff.mp isRange
  rw [← Int.toNat_of_nonneg fromFront.1] at isStart
  rw [← Int.toNat_of_nonneg fromFront.2] at isStop
  have startFound := offsetAt_positionAt tabled fits.1 startWhole isStart
  have stopFound := offsetAt_positionAt tabled fits.2 stopWhole isStop
  simp only [resolve, startFound, stopFound]
  rfl

/-- The edits of a scan come back from their positions unchanged. -/
theorem resolve_scan
    {options : Options} {passes : List String} {document : Document} {edit : Edit}
    {textEdit : TextEdit}
    (tabled : document.Tabled)
    (member : edit ∈ scan options passes document.text)
    (told : document.textEdit edit = .ok textEdit) :
    document.resolve textEdit = .ok edit.patch := by
  have joined : Line.join (Source.ofText document.text).lines = document.text :=
    Line.join_ofFeeds document.text
  have cut : Line.CutAtFeeds (Source.ofText document.text).lines :=
    Line.cutAtFeeds_ofFeeds document.text
  rw [scan_eq_editsOf] at member
  obtain ⟨_, _, _, makes⟩ := (fitAll_findings options passes document.text).exists_makes member
  have stopInside := makes.stop_le_length
  have startInside := Nat.le_trans makes.start_le_stop stopInside
  have startWhole := makes.not_splits_start cut
  have stopWhole := makes.not_splits_stop cut
  rw [joined] at stopInside startInside startWhole stopWhole
  exact resolve_of_textEdit tabled ⟨startInside, stopInside⟩ makes.fromFront startWhole stopWhole
    told

theorem turns_scan
    {document : Document}
    (tabled : document.Tabled)
    {options : Options} {passes : List String} {edits : List TextEdit}
    (told : (scan options passes document.text).mapM document.textEdit = .ok edits) :
    document.Turns edits (format options passes document.text) := by
  have joined : Line.join (Source.ofText document.text).lines = document.text :=
    Line.join_ofFeeds document.text
  have fitAll := fitAll_findings options passes document.text
  have order := fitAll.edits_inOrder
  have spliced := fitAll.splice_edits
  rw [joined, ← scan_eq_editsOf] at order spliced
  refine ⟨_, mapM_of_mapM told fun edit member _ => resolve_scan tabled member, order, ?_⟩
  rw [format_eq_join]
  exact spliced

theorem positionAt_clamped
    (document : Document) (offset : Int) :
    document.positionAt offset =
      document.positionAt (min offset.toNat document.text.length : Nat) := by
  simp only [positionAt, Int.toNat_natCast, Nat.min_assoc, Nat.min_self]

/-- Texts that have an encoding in UTF-16 have positions for all edits. -/
theorem exists_textEdits
    {document : Document}
    (tabled : document.Tabled)
    (encodable : document.text.Encodable) (edits : List Edit) :
    ∃ textEdits, edits.mapM document.textEdit = .ok textEdits := by
  have found (offset : Int) : ∃ position, document.positionAt offset = .ok position := by
    have inside : min offset.toNat document.text.length ≤ document.text.length :=
      Nat.min_le_right ..
    have answers := (tabled.positionAt_eq_ok_iff inside _).mpr
      ⟨encodable.not_surrogateBefore _, rfl⟩
    exact ⟨_, (document.positionAt_clamped offset).trans answers⟩
  rw [mapM_eq_ok_iff]
  intro edit _
  obtain ⟨start, isStart⟩ := found edit.start
  obtain ⟨stop, isStop⟩ := found edit.stop
  exact ⟨⟨⟨start, stop⟩, edit.text⟩, by simp only [textEdit, rangeAt, isStart, isStop]; rfl⟩

end Document

/-! ## Requests and commands -/

namespace Workspace

open Outcome

variable {before : Logged Workspace} {uri : String} {document : Document}

/-- A formatting request answers with the edits of the scan. -/
theorem formatDocument_eq
    (isOpen : before.state.document? uri = some document)
    (free : before.state.guard.isBusy uri = false) :
    (formatDocument uri before).1 =
      (Scan.ofText before.state.options (before.state.passesFor document)
        document.text).edits.bind fun edits => edits.mapM document.textEdit := by
  unfold formatDocument
  rw [Act.current_bind, isOpen]
  simp only [Guard.run]
  rw [Guard.runOr_of_free free, Act.current_bind, Act.write_bind]
  exact Act.lift_bind_outcome ..

/-- A run whose body leaves every state as it is does so, too. -/
theorem run_state
    {Item : Type} {body : Act Workspace (List Item)}
    (keeps : ∀ held, Act.Keeps (fun state => state = held) body)
    (uri : String) (before : Logged Workspace) :
    (Guard.run uri body before).2.state = before.state := by
  simp only [Guard.run]
  cases isBusy : before.state.guard.isBusy uri with
  | true =>
      rw [Guard.runOr_of_busy isBusy]
  | false =>
      have unchanged :=
        keeps _ (Guard.onState (fun guard => guard.hold uri) before) rfl
      have isFree := Guard.release_hold isBusy
      rw [Guard.runOr_of_free isBusy]
      simp only [Guard.onState, Guarded.guard, Guarded.withGuard] at unchanged ⊢
      rw [unchanged]
      simp only [isFree]

/-- A formatting request leaves the workspace as it is. -/
theorem formatDocument_state
    (uri : String) (before : Logged Workspace) :
    (formatDocument uri before).2.state = before.state := by
  unfold formatDocument
  rw [Act.current_bind]
  cases before.state.document? uri with
  | none =>
      rfl
  | some document =>
      apply run_state
      intro held
      refine Act.keeps_current.bind fun workspace => ?_
      refine (Act.keeps_write _).bind fun _ => ?_
      refine (Act.keeps_lift _).bind fun edits => ?_
      refine (Act.keeps_write _).bind fun _ => ?_
      exact Act.keeps_lift _

/-- The request with which a command asks its client, if edits can be sent. -/
def requestFor (protocol : Protocol) (document : Document) (edits : List Edit) :
    Except Fault Application := do
  let request ← application document edits
  protocol.checkEdited document.version
  return request

/-- The holder of a document asks the client as soon as there is a request. -/
theorem replace_eq
    {Extra : Type} (client : Client Extra) (edits : List Edit) (asked : Logged Workspace) :
    (hostOf document client).replace edits asked =
      (Act.lift (requestFor asked.state.protocol document edits) >>= fun request =>
        client request >>= fun answer =>
          Act.write (verdictNotes document.uri answer.1) >>= fun _ =>
            pure (request, answer.2)) asked := by
  unfold requestFor
  simp only [hostOf]
  cases application document edits with
  | error fault =>
      rfl
  | ok request =>
      simp only [Act.bind_apply, Act.lift, Act.current]
      cases asked.state.protocol.checkEdited document.version with
      | error fault =>
          rfl
      | ok _ =>
          rfl

/-- The holder of a document hands the edits to the client, unless there are none. -/
theorem push_outcome
    {Extra : Type} (client : Client Extra) (edits : List Edit) (asked : Logged Workspace) :
    (((hostOf document client).push edits asked).1.map fun receipt =>
        ({ edits := edits, receipt := receipt } : Passed (Application × Extra))) =
      if edits.isEmpty then .ok {}
      else
        (requestFor asked.state.protocol document edits).bind fun request =>
          (client request asked).1.map fun answer =>
            { edits := edits, receipt := some (request, answer.2) } := by
  unfold Host.push
  split
  · rename_i noEdits
    rw [List.isEmpty_iff.mp noEdits]
    rfl
  · rw [Act.bind_apply, replace_eq]
    cases requestFor asked.state.protocol document edits with
    | error fault =>
        rfl
    | ok request =>
        simp only [Act.bind_apply, Act.lift, Except.bind]
        rcases client request asked with ⟨_ | _, after⟩ <;> rfl

/-- A command that handles the document is a pass of its formatter. -/
theorem executeCommand_of_handled
    {command : String} {formatter : Formatter}
    (isCommand : commandFormatter? command = some formatter)
    (isOpen : before.state.document? uri = some document)
    (handled : handles formatter document.language = true)
    {Extra : Type} (client : Client Extra) :
    executeCommand command uri client before =
      (hostOf document client).formatPass Workspace.options uri (some [command]) before := by
  unfold executeCommand
  rw [isCommand]
  simp only
  rw [Act.current_bind, isOpen]
  simp only
  rw [if_pos handled]

/-- The state in which a command asks its client. -/
def askedBy (before : Logged Workspace) (command uri : String) (document : Document) :
    Logged Workspace where
  state := { before.state with guard := before.state.guard.hold uri }
  log := before.log ++ (Scan.ofText before.state.options [command] document.text).records

theorem executeCommand_asking
    {command : String} {formatter : Formatter}
    (isCommand : commandFormatter? command = some formatter)
    (isOpen : before.state.document? uri = some document)
    (handled : handles formatter document.language = true)
    (free : before.state.guard.isBusy uri = false)
    {Extra : Type} (client : Client Extra) :
    (executeCommand command uri client before).1 =
      (Scan.ofText before.state.options [command] document.text).edits.bind fun edits =>
        if edits.isEmpty then .ok {}
        else
          (requestFor before.state.protocol document edits).bind fun request =>
            (client request (askedBy before command uri document)).1.map fun answer =>
              { edits := edits, receipt := some (request, answer.2) } := by
  have passed :
      ((hostOf document client).formatPass Workspace.options uri (some [command]) before).1 =
        (Scan.ofText before.state.options [command] document.text).edits.bind fun edits =>
          ((hostOf document client).push edits (askedBy before command uri document)).1.map
            fun receipt => { edits := edits, receipt := receipt } :=
    Host.formatPass_outcome free (hostOf document client) Workspace.options [command] rfl rfl
  simp only [push_outcome] at passed
  rw [executeCommand_of_handled isCommand isOpen handled]
  exact passed

/-- A command asks its client in one state only, to make the edits of the scan. -/
theorem executeCommand_outcome
    {command : String} {formatter : Formatter}
    (isCommand : commandFormatter? command = some formatter)
    (isOpen : before.state.document? uri = some document)
    (handled : handles formatter document.language = true)
    (free : before.state.guard.isBusy uri = false) :
    ∃ asked : Logged Workspace, ∀ {Extra : Type} (client : Client Extra),
      (executeCommand command uri client before).1 =
        (Scan.ofText before.state.options [command] document.text).edits.bind fun edits =>
          if edits.isEmpty then .ok {}
          else
            (requestFor before.state.protocol document edits).bind fun request =>
              (client request asked).1.map fun answer =>
                { edits := edits, receipt := some (request, answer.2) } :=
  ⟨askedBy before command uri document, executeCommand_asking isCommand isOpen handled free⟩

/-- The edits that reach the editor, resolved to offsets and made all at once, turn an
open document that is not busy into its formatted text.  A formatting request answers
with such edits, and a command asks its client for nothing else.  Where no surrogate stands
without a pair there are positions for all edits. -/
theorem delivered_edits_turn
    (isOpen : before.state.document? uri = some document)
    (tabled : document.Tabled)
    (free : before.state.guard.isBusy uri = false) :
    ((formatDocument uri before).1 =
        ((Scan.ofText before.state.options (before.state.passesFor document)
          document.text).edits.bind fun edits => edits.mapM document.textEdit) ∧
      ∀ edits, (formatDocument uri before).1 = .ok edits →
        document.Turns edits
          (format before.state.options (before.state.passesFor document) document.text)) ∧
    (∀ command formatter,
      commandFormatter? command = some formatter →
      handles formatter document.language = true →
      (∀ edits request,
        (Scan.ofText before.state.options [command] document.text).edits = .ok edits →
        application document edits = .ok request →
          request.uri = document.uri ∧ request.version = document.version ∧
          document.Turns request.edits
            (format before.state.options [command] document.text)) ∧
      ∃ asked : Logged Workspace, ∀ {Extra : Type} (client : Client Extra),
        (executeCommand command uri client before).1 =
          (Scan.ofText before.state.options [command] document.text).edits.bind fun edits =>
            if edits.isEmpty then .ok {}
            else
              (requestFor before.state.protocol document edits).bind fun request =>
                (client request asked).1.map fun answer =>
                  { edits := edits, receipt := some (request, answer.2) }) ∧
    (document.text.Encodable →
      ∀ edits : List Edit, ∃ textEdits, edits.mapM document.textEdit = .ok textEdits) := by
  refine ⟨⟨formatDocument_eq isOpen free, fun edits answered => ?_⟩,
    fun command formatter isCommand handled => ⟨fun edits request scanned prepared => ?_, ?_⟩,
    Document.exists_textEdits tabled⟩
  · rw [formatDocument_eq isOpen free] at answered
    obtain ⟨found, scanned, told⟩ := bind_eq_ok_iff.mp answered
    rw [Scan.edits_of_ok scanned] at told
    exact Document.turns_scan tabled told
  · obtain ⟨textEdits, told, rfl⟩ := bind_pure_eq_ok_iff.mp prepared
    rw [Scan.edits_of_ok scanned] at told
    exact ⟨rfl, rfl, Document.turns_scan tabled told⟩
  · exact executeCommand_outcome isCommand isOpen handled free

/-- A document with every kind of line break at the edges of two runs of imports, and
with characters outside the basic multilingual plane. -/
def mixedBreaks : Document :=
  .ofItem
    { uri := "file:///imports.ts"
      languageId := some ("typescript" : Text)
      version := 3
      text :=
        ("\r\n import \x7b\r\n  b😀\n  longer , \r\n\x7d from 'x'\r\r\n" : Text) ++
          ("x\r\n\t import '😀'\r" : Text) }

def mixedFormatted : Text :=
  "\r\nimport \x7b\r\n  longer,\n  b😀,\r\n\x7d from 'x'\r\nx\r\nimport '😀'"

theorem format_mixedBreaks :
    format {} ["sortImports"] mixedBreaks.text = mixedFormatted := by
  have found :
      findings ["sortImports"] (Source.ofText mixedBreaks.text) =
        [.imports 1 ([" import \x7b", "  b😀", "  longer , ", "\x7d from 'x'\r"] : List Text),
          .imports 6 (["\t import '😀'\r"] : List Text)] := by
    decide +kernel
  have ordered :
      Specifiers.longestFirst (["  b😀", "  longer"] : List Text) =
        (["  longer", "  b😀"] : List Text) := by
    simp [Specifiers.longestFirst, List.mergeSort, Text.ofList]
  have written :
      Import.sortLines ([" import \x7b", "  b😀", "  longer , ", "\x7d from 'x'\r"] : List Text) =
        (["import \x7b", "  longer,", "  b😀,", "\x7d from 'x'"] : List Text) :=
    Import.sortLines_braced " import \x7b" "\x7d from 'x'\r" ["  b😀", "  longer , "]
      (by decide +kernel) (by decide +kernel) (by decide +kernel) ordered
  rw [format_eq_join, relaid, relaidLines, found]
  simp only [List.map_cons, Finding.patch, Finding.rewritten, written]
  decide +kernel

theorem delivered_edits_turn_mixed :
    (∃ edits,
      mixedBreaks.Turns edits mixedFormatted ∧
        (formatDocument mixedBreaks.uri (holding mixedBreaks)).1 = .ok edits) ∧
      ∃ (request : Application) (asked : Logged Workspace),
        mixedBreaks.Turns request.edits mixedFormatted ∧
        ∀ {Extra : Type} (client : Client Extra),
          (executeCommand "sortImports" mixedBreaks.uri client (holding mixedBreaks)).1.map
              Passed.receipt =
            (client request asked).1.map fun answer => some (request, answer.2) := by
  have scanned :
      (Scan.ofText (holding mixedBreaks).state.options ["sortImports"] mixedBreaks.text).edits =
        .ok (scan {} ["sortImports"] mixedBreaks.text) :=
    Scan.edits_of_indent rfl ["sortImports"] mixedBreaks.text
  have isOpen : (holding mixedBreaks).state.document? mixedBreaks.uri = some mixedBreaks := rfl
  have free : (holding mixedBreaks).state.guard.isBusy mixedBreaks.uri = false := rfl
  have encodable : mixedBreaks.text.Encodable :=
    (Text.encodable_ofList _).append (Text.encodable_ofList _)
  obtain ⟨⟨outcome, turns⟩, ofCommand, positions⟩ :=
    delivered_edits_turn isOpen (Document.ofItem_tabled _) free
  obtain ⟨edits, told⟩ := positions encodable (scan {} ["sortImports"] mixedBreaks.text)
  obtain ⟨requestTurns, asked, outcomeOf⟩ := ofCommand "sortImports" .sortImports rfl rfl
  have answered : (formatDocument mixedBreaks.uri (holding mixedBreaks)).1 = .ok edits := by
    exact outcome.trans (bind_eq_ok_iff.mpr ⟨_, scanned, told⟩)
  let request : Application := ⟨mixedBreaks.uri, mixedBreaks.version, edits⟩
  have prepared : application mixedBreaks (scan {} ["sortImports"] mixedBreaks.text) =
      .ok request := by
    unfold application
    rw [told]
    rfl
  have someEdits : (scan {} ["sortImports"] mixedBreaks.text).isEmpty = false := by
    rw [List.isEmpty_eq_false_iff]
    intro none
    have unchanged := (format_of_scan_eq_nil none).symm.trans format_mixedBreaks
    exact absurd unchanged (by decide +kernel)
  refine ⟨⟨edits, format_mixedBreaks ▸ turns edits answered, answered⟩, request, asked,
    format_mixedBreaks ▸ (requestTurns _ _ scanned prepared).2.2, ?_⟩
  intro Extra client
  have isRequest : requestFor (holding mixedBreaks).state.protocol mixedBreaks
      (scan {} ["sortImports"] mixedBreaks.text) = .ok request := by
    unfold requestFor
    rw [prepared]
    rfl
  rw [outcomeOf client, scanned]
  simp only [Except.bind, someEdits, isRequest]
  rcases client request asked with ⟨_ | _, after⟩ <;> rfl

end Workspace

end Tidy
