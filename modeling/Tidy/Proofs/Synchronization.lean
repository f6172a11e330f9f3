import Tidy.Proofs.Actions
import Tidy.Proofs.Patch
import Tidy.Proofs.PositionMapping
import Tidy.Workspace.Basic

/-!
# Documents in step with the editor

An editor tells what it did to a text by changes, one after another.  A change of a
stretch names it by two positions in the text as it is at that moment, so that the
changes of one notification depend on those before them.  The workspace makes the
same of the text as the editor does.
-/

namespace Tidy

/-! ## What the editor does -/

/-- What an editor does to a text: it puts another text in place of all of it, or of a
stretch. -/
inductive Revision where
  | everything (text : Text)
  | stretch (patch : Patch CodePoint)

namespace Revision

def make (revision : Revision) (text : Text) : Text :=
  match revision with
  | .everything other => other
  | .stretch patch => text.take patch.start ++ patch.items ++ text.drop patch.stop

def makeAll (revisions : List Revision) (text : Text) : Text :=
  revisions.foldl (fun current revision => revision.make current) text

/-- A stretch lies within the text, and its ends split no line break. -/
def Fits (text : Text) : Revision → Prop
  | .everything _ => True
  | .stretch patch =>
      patch.start ≤ patch.stop ∧ patch.stop ≤ text.length ∧
        ¬ Text.SplitsReturnFeed text patch.start ∧ ¬ Text.SplitsReturnFeed text patch.stop

end Revision

namespace Document

open Outcome

/-- The change by which an editor tells a revision of a document. -/
def report (document : Document) : Revision → Except Fault Change
  | .everything text => .ok { text := text }
  | .stretch patch => do
      let range ← document.rangeAt patch.start patch.stop
      return { text := patch.items, range := some range }

/-- Changes that tell revisions made one after another, each in terms of the text that
the ones before it left. -/
inductive Reports : Document → List Change → List Revision → Prop where
  | nil (document : Document) : Reports document [] []
  | cons {document : Document} {revision : Revision} {change : Change}
      {changes : List Change} {revisions : List Revision}
      (told : document.report revision = .ok change)
      (fits : revision.Fits document.text)
      (later :
        Reports (document.update (revision.make document.text) document.version) changes
          revisions) :
      Reports document (change :: changes) (revision :: revisions)

/-! ## Changes of a document -/

/-- What changes leave of a document, made one after another until one of them fails:
the document after the ones before it, and its fault. -/
def batch (document : Document) : List Change → Document × Option Fault
  | [] => (document, none)
  | change :: rest =>
      match document.changed change with
      | .ok text => (document.update text document.version).batch rest
      | .error fault => (document, some fault)

theorem batch_cons_of_ok
    {document : Document} {change : Change} {text : Text}
    (changed : document.changed change = .ok text) (rest : List Change) :
    document.batch (change :: rest) = (document.update text document.version).batch rest := by
  rw [batch, changed]

theorem batch_cons_of_error
    {document : Document} {change : Change} {fault : Fault}
    (failed : document.changed change = .error fault) (rest : List Change) :
    document.batch (change :: rest) = (document, some fault) := by
  rw [batch, failed]

theorem Tabled.eq_ofItem
    {document : Document}
    (tabled : document.Tabled) :
    document = ofItem document.toDocumentItem := by
  cases document
  exact congr (congrArg _ tabled.lines_eq) tabled.lineOffsets_eq

/-- Changes make a text of their own and leave all else. -/
theorem batch_eq_update
    {document : Document}
    (tabled : document.Tabled) (changes : List Change) :
    (document.batch changes).1 =
      document.update (document.batch changes).1.text document.version := by
  induction changes generalizing document with
  | nil =>
      exact tabled.eq_ofItem
  | cons change rest inductionHypothesis =>
      cases changed : document.changed change with
      | error fault =>
          rw [batch_cons_of_error changed]
          exact tabled.eq_ofItem
      | ok text =>
          rw [batch_cons_of_ok changed]
          exact inductionHypothesis (document.update_tabled text document.version)

theorem batch_tabled
    {document : Document}
    (tabled : document.Tabled) (changes : List Change) :
    (document.batch changes).1.Tabled := by
  rw [batch_eq_update tabled]
  exact update_tabled ..

theorem batch_uri
    (document : Document) (changes : List Change) :
    (document.batch changes).1.uri = document.uri := by
  induction changes generalizing document with
  | nil =>
      rfl
  | cons change rest inductionHypothesis =>
      cases changed : document.changed change with
      | error fault =>
          rw [batch_cons_of_error changed]
      | ok text =>
          rw [batch_cons_of_ok changed, inductionHypothesis]
          rfl

/-- The version of a document has no part in its changes. -/
theorem batch_update
    {document : Document}
    (tabled : document.Tabled) (version : Int) (changes : List Change) :
    (document.update document.text version).batch changes =
      ((document.batch changes).1.update (document.batch changes).1.text version,
        (document.batch changes).2) := by
  induction changes generalizing document with
  | nil =>
      rfl
  | cons change rest inductionHypothesis =>
      have same : (document.update document.text version).changed change =
          document.changed change := by
        rw [tabled.eq_ofItem]
        rfl
      cases changed : document.changed change with
      | error fault =>
          rw [batch_cons_of_error changed, batch_cons_of_error (same.trans changed)]
      | ok text =>
          rw [batch_cons_of_ok changed, batch_cons_of_ok (same.trans changed)]
          exact inductionHypothesis (document.update_tabled text document.version)

theorem batch_append_of_none
    {document : Document} {first : List Change}
    (whole : (document.batch first).2 = none) (second : List Change) :
    document.batch (first ++ second) = (document.batch first).1.batch second := by
  induction first generalizing document with
  | nil =>
      rfl
  | cons change rest inductionHypothesis =>
      cases changed : document.changed change with
      | error fault =>
          rw [batch_cons_of_error changed] at whole
          cases whole
      | ok text =>
          rw [batch_cons_of_ok changed] at whole ⊢
          rw [List.cons_append, batch_cons_of_ok changed]
          exact inductionHypothesis whole

theorem batch_append_of_some
    {document : Document} {first : List Change} {fault : Fault}
    (stopped : (document.batch first).2 = some fault) (second : List Change) :
    document.batch (first ++ second) = document.batch first := by
  induction first generalizing document with
  | nil =>
      cases stopped
  | cons change rest inductionHypothesis =>
      cases changed : document.changed change with
      | error fault =>
          rw [List.cons_append, batch_cons_of_error changed, batch_cons_of_error changed]
      | ok text =>
          rw [batch_cons_of_ok changed] at stopped ⊢
          rw [List.cons_append, batch_cons_of_ok changed]
          exact inductionHypothesis stopped

/-- A batch that stops has made the changes in front of the one that fails. -/
theorem exists_stop
    {document : Document} {changes : List Change} {fault : Fault}
    (stopped : (document.batch changes).2 = some fault) :
    ∃ made change rest, changes = made ++ change :: rest ∧
      document.batch made = ((document.batch changes).1, none) ∧
      (document.batch changes).1.changed change = .error fault := by
  induction changes generalizing document with
  | nil =>
      cases stopped
  | cons change rest inductionHypothesis =>
      cases changed : document.changed change with
      | error other =>
          rw [batch_cons_of_error changed] at stopped ⊢
          cases stopped
          exact ⟨[], change, rest, rfl, rfl, changed⟩
      | ok text =>
          rw [batch_cons_of_ok changed] at stopped ⊢
          obtain ⟨made, failing, others, rfl, isMade, fails⟩ := inductionHypothesis stopped
          exact ⟨change :: made, failing, others, rfl,
            (batch_cons_of_ok changed made).trans isMade, fails⟩

/-- The positions of a stretch lead back to it. -/
theorem changed_of_report
    {document : Document} {revision : Revision} {change : Change}
    (tabled : document.Tabled)
    (told : document.report revision = .ok change)
    (fits : revision.Fits document.text) :
    document.changed change = .ok (revision.make document.text) := by
  cases revision with
  | everything text =>
      cases told
      rfl
  | stretch patch =>
      obtain ⟨order, inside, startWhole, stopWhole⟩ := fits
      obtain ⟨range, isRange, rfl⟩ := bind_pure_eq_ok_iff.mp told
      obtain ⟨start, isStart, isRange⟩ := bind_eq_ok_iff.mp isRange
      obtain ⟨stop, isStop, rfl⟩ := bind_pure_eq_ok_iff.mp isRange
      have startFound := offsetAt_positionAt tabled (Nat.le_trans order inside) startWhole isStart
      have stopFound := offsetAt_positionAt tabled inside stopWhole isStop
      simp only [changed, startFound, stopFound]
      rfl

/-- The changes that an editor reports make its revisions, and none of them fails. -/
theorem Reports.batch_eq
    {document : Document} {changes : List Change} {revisions : List Revision}
    (reports : document.Reports changes revisions)
    (tabled : document.Tabled) :
    document.batch changes =
      (document.update (Revision.makeAll revisions document.text) document.version, none) := by
  induction reports with
  | nil document =>
      exact congrArg (·, none) tabled.eq_ofItem
  | @cons document revision change changes revisions told fits later inductionHypothesis =>
      rw [batch_cons_of_ok (changed_of_report tabled told fits),
        inductionHypothesis (document.update_tabled ..)]
      rfl

theorem Reports.append
    {document : Document} {changes others : List Change} {revisions more : List Revision}
    (reports : document.Reports changes revisions)
    (tabled : document.Tabled)
    (further : (document.batch changes).1.Reports others more) :
    document.Reports (changes ++ others) (revisions ++ more) := by
  induction reports with
  | nil document =>
      exact further
  | @cons document revision change changes revisions told fits later inductionHypothesis =>
      rw [batch_cons_of_ok (changed_of_report tabled told fits)] at further
      exact .cons told fits (inductionHypothesis (document.update_tabled ..) further)

end Document

/-! ## Open documents -/

namespace Workspace

theorem lookup_filter
    (uri other : String) (entries : List (String × Document)) :
    (entries.filter fun entry => entry.1 != other).lookup uri =
      if uri = other then none else entries.lookup uri := by
  induction entries with
  | nil =>
      simp
  | cons entry rest inductionHypothesis =>
      by_cases isOther : entry.1 = other
      · have isDropped :
            ((entry :: rest).filter fun entry => entry.1 != other) =
              rest.filter fun entry => entry.1 != other := by
          simp [isOther]
        rw [isDropped, inductionHypothesis, List.lookup_cons]
        by_cases same : uri = other
        · rw [if_pos same, if_pos same]
        · have differs : (uri == entry.1) = false := by simpa [isOther] using same
          rw [if_neg same, if_neg same, differs]
      · have isKept :
            ((entry :: rest).filter fun entry => entry.1 != other) =
              entry :: rest.filter fun entry => entry.1 != other := by
          simp [isOther]
        rw [isKept, List.lookup_cons, List.lookup_cons, inductionHypothesis]
        by_cases same : uri = entry.1
        · simp [same, isOther]
        · have differs : (uri == entry.1) = false := by simpa using same
          rw [differs]

theorem document?_withDocument
    (workspace : Workspace) (document : Document) (uri : String) :
    (workspace.withDocument document).document? uri =
      if uri = document.uri then some document else workspace.document? uri := by
  unfold document? withDocument
  rw [List.lookup_cons, lookup_filter]
  by_cases same : uri = document.uri
  · simp [same]
  · have differs : (uri == document.uri) = false := by simpa using same
    simp only [differs, if_neg same]

/-- Whether a workspace is another one with a document stored in it. -/
structure Stores (workspace : Workspace) (document : Document) (after : Workspace) : Prop where
  kept : after = { workspace with documents := after.documents }
  others :
    (after.documents.filter fun entry => entry.1 != document.uri) =
      workspace.documents.filter fun entry => entry.1 != document.uri
  found : after.document? document.uri = some document

theorem stores_self
    {workspace : Workspace} {document : Document}
    (isOpen : workspace.document? document.uri = some document) :
    workspace.Stores document workspace :=
  ⟨rfl, rfl, isOpen⟩

theorem stores_withDocument
    (workspace : Workspace) (document : Document) :
    workspace.Stores document (workspace.withDocument document) where
  kept := rfl
  others := by simp [withDocument, List.filter_filter]
  found := by rw [document?_withDocument, if_pos rfl]

theorem Stores.trans
    {workspace middle after : Workspace} {document next : Document}
    (first : workspace.Stores document middle)
    (second : middle.Stores next after)
    (sameUri : next.uri = document.uri) :
    workspace.Stores next after where
  kept := by rw [second.kept, first.kept]
  others := by rw [second.others, sameUri, first.others]
  found := second.found

/-- Storing a document again leaves the one stored last. -/
theorem Stores.withDocument_eq
    {workspace after : Workspace} {document : Document}
    (stores : workspace.Stores document after)
    (next : Document) (sameUri : next.uri = document.uri) :
    after.withDocument next = workspace.withDocument next := by
  have others := stores.others
  rw [← sameUri] at others
  rw [withDocument, others, stores.kept]
  rfl

/-! ## Notifications -/

/-- What comes of changes of a stored document: the document that they leave is stored. -/
theorem foldlM_applyChange
    (changes : List Change) {document : Document} {before : Logged Workspace}
    (isOpen : before.state.document? document.uri = some document) :
    ∃ after, before.state.Stores (document.batch changes).1 after ∧
      changes.foldlM applyChange document before =
        ((document.batch changes).2.elim (.ok (document.batch changes).1) .error,
          { before with state := after }) := by
  induction changes generalizing document before with
  | nil =>
      exact ⟨before.state, stores_self isOpen, rfl⟩
  | cons change rest inductionHypothesis =>
      rw [List.foldlM_cons]
      cases changed : document.changed change with
      | error fault =>
          have stopped : applyChange document change before = (.error fault, before) := by
            rw [applyChange, changed]
            rfl
          rw [Document.batch_cons_of_error changed, Act.bind_apply, stopped]
          exact ⟨before.state, stores_self isOpen, rfl⟩
      | ok text =>
          let next := document.update text document.version
          have stored : applyChange document change before =
              (.ok next, { before with state := before.state.withDocument next }) := by
            rw [applyChange, changed]
            rfl
          have stores := before.state.stores_withDocument next
          obtain ⟨after, later, isAfter⟩ := @inductionHypothesis next
            { before with state := before.state.withDocument next } stores.found
          rw [Document.batch_cons_of_ok changed, Act.bind_apply, stored]
          exact ⟨after, stores.trans later (next.batch_uri rest), isAfter⟩

section

variable {before middle : Logged Workspace} {uri : String} {version : Int} {document : Document}

theorem documentToChange_of_open
    (isOpen : before.state.document? uri = some document) (version : Int) :
    documentToChange uri version before = (.ok document, before) := by
  unfold documentToChange
  rw [Act.current_bind, isOpen]
  rfl

/-- The document that a notification leaves when all of its changes can be made. -/
theorem didChange_of_none
    (found : documentToChange uri version before = (.ok document, middle))
    (isOpen : middle.state.document? document.uri = some document)
    {changes : List Change}
    (whole : (document.batch changes).2 = none) :
    didChange uri version changes before =
      (.ok ((document.batch changes).1.update (document.batch changes).1.text version),
        { middle with
          state :=
            middle.state.withDocument
              ((document.batch changes).1.update (document.batch changes).1.text version) }) := by
  obtain ⟨after, stores, isAfter⟩ := foldlM_applyChange changes isOpen
  have collapsed := stores.withDocument_eq
    ((document.batch changes).1.update (document.batch changes).1.text version) rfl
  rw [whole] at isAfter
  unfold didChange
  rw [Act.bind_apply, found]
  simp only
  rw [Act.bind_apply, isAfter, ← collapsed]
  rfl

/-- A change that cannot be made leaves the document to the changes before it. -/
theorem didChange_of_some
    (found : documentToChange uri version before = (.ok document, middle))
    (isOpen : middle.state.document? document.uri = some document)
    {changes : List Change} {fault : Fault}
    (stopped : (document.batch changes).2 = some fault) :
    ∃ after, middle.state.Stores (document.batch changes).1 after ∧
      didChange uri version changes before = (.error fault, { middle with state := after }) := by
  obtain ⟨after, stores, isAfter⟩ := foldlM_applyChange changes isOpen
  rw [stopped] at isAfter
  refine ⟨after, stores, ?_⟩
  unfold didChange
  rw [Act.bind_apply, found]
  simp only
  rw [Act.bind_apply, isAfter]
  rfl

end

section Open

variable {before : Logged Workspace} {document : Document}
  (isOpen : before.state.document? document.uri = some document)

include isOpen

theorem didChange_outcome
    (version : Int) (changes : List Change) :
    (didChange document.uri version changes before).1 =
      (document.batch changes).2.elim
        (.ok ((document.batch changes).1.update (document.batch changes).1.text version))
        .error := by
  have found := documentToChange_of_open isOpen version
  cases stop : (document.batch changes).2 with
  | none =>
      rw [didChange_of_none found isOpen stop]
      rfl
  | some fault =>
      obtain ⟨after, _, isAfter⟩ := didChange_of_some found isOpen stop
      rw [isAfter]
      rfl

theorem didChange_eq_ok_iff
    (version : Int) (changes : List Change) :
    (∃ current, (didChange document.uri version changes before).1 = .ok current) ↔
      (document.batch changes).2 = none := by
  rw [didChange_outcome isOpen]
  cases (document.batch changes).2 <;> simp

theorem didChange_of_reports
    (tabled : document.Tabled) (version : Int)
    {changes : List Change} {revisions : List Revision}
    (reports : document.Reports changes revisions) :
    didChange document.uri version changes before =
      (.ok (document.update (Revision.makeAll revisions document.text) version),
        { before with
          state :=
            before.state.withDocument
              (document.update (Revision.makeAll revisions document.text) version) }) := by
  have revised := reports.batch_eq tabled
  rw [didChange_of_none (documentToChange_of_open isOpen version) isOpen (by rw [revised]), revised]
  rfl

/-- Changes of an open document, in one notification or in two. -/
theorem didChange_append_of_none
    (tabled : document.Tabled)
    {first : List Change}
    (whole : (document.batch first).2 = none)
    (earlier version : Int) (second : List Change) :
    (didChange document.uri version second (didChange document.uri earlier first before).2).1 =
        (didChange document.uri version (first ++ second) before).1 ∧
      ((document.batch (first ++ second)).2 = none →
        didChange document.uri version second (didChange document.uri earlier first before).2 =
          didChange document.uri version (first ++ second) before) := by
  have found := documentToChange_of_open isOpen earlier
  have leftTabled := Document.batch_tabled tabled first
  let left := (document.batch first).1
  let middle := left.update left.text earlier
  have sameUri : middle.uri = document.uri := document.batch_uri first
  have stores := before.state.stores_withDocument middle
  have isMiddle : (before.state.withDocument middle).document? middle.uri = some middle :=
    stores.found
  have split : middle.batch second =
      ((document.batch (first ++ second)).1.update (document.batch (first ++ second)).1.text
        earlier, (document.batch (first ++ second)).2) := by
    rw [Document.batch_append_of_none whole]
    exact Document.batch_update leftTabled earlier second
  rw [didChange_of_none found isOpen whole]
  constructor
  · rw [didChange_outcome isOpen, ← sameUri, didChange_outcome isMiddle, split]
    rfl
  · intro both
    rw [didChange_of_none (documentToChange_of_open isOpen version) isOpen both, ← sameUri,
      didChange_of_none (documentToChange_of_open isMiddle version) isMiddle
        (by rw [split]; exact both), split]
    have collapsed := stores.withDocument_eq
      ((document.batch (first ++ second)).1.update (document.batch (first ++ second)).1.text
        version)
      ((document.batch_uri (first ++ second)).trans sameUri.symm)
    rw [← collapsed]
    rfl

/-- A fault among the first changes is met in one notification as in two. -/
theorem didChange_append_of_some
    {first : List Change} {fault : Fault}
    (stopped : (document.batch first).2 = some fault)
    (earlier version : Int) (second : List Change) :
    (didChange document.uri version (first ++ second) before).1 =
      (didChange document.uri earlier first before).1 := by
  rw [didChange_outcome isOpen, didChange_outcome isOpen,
    Document.batch_append_of_some stopped, stopped]
  rfl

/-- A notification about an open document leaves the text that the editor has after its
revisions, with the version of the notification, and no other document is touched.  It
makes no difference whether changes come in one notification or in two, unless one of them
cannot be made; then the fault is the same. -/
theorem didChange_inStep
    (tabled : document.Tabled) (version : Int) :
    (∀ changes revisions, document.Reports changes revisions →
      ∃ current,
        current = document.update (Revision.makeAll revisions document.text) version ∧
        (didChange document.uri version changes before).1 = .ok current ∧
        ∀ uri,
          (didChange document.uri version changes before).2.state.document? uri =
            if uri = document.uri then some current else before.state.document? uri) ∧
    ∀ (earlier : Int) (first second : List Change),
      (didChange document.uri version (first ++ second) before).1 =
          (didChange document.uri earlier first before).1.bind (fun _ =>
            (didChange document.uri version second
              (didChange document.uri earlier first before).2).1) ∧
        ∀ current, (didChange document.uri version (first ++ second) before).1 = .ok current →
          didChange document.uri version (first ++ second) before =
            didChange document.uri version second
              (didChange document.uri earlier first before).2 := by
  constructor
  · intro changes revisions reports
    refine ⟨_, rfl, ?_, ?_⟩
    · rw [didChange_of_reports isOpen tabled version reports]
    · intro uri
      rw [didChange_of_reports isOpen tabled version reports]
      exact document?_withDocument ..
  · intro earlier first second
    cases stop : (document.batch first).2 with
    | some fault =>
        have both := didChange_append_of_some isOpen stop earlier version second
        have alone := didChange_outcome isOpen earlier first
        rw [stop] at alone
        rw [both, alone]
        exact ⟨rfl, fun current isOk => nomatch isOk⟩
    | none =>
        obtain ⟨left, isLeft⟩ := (didChange_eq_ok_iff isOpen earlier first).mpr stop
        obtain ⟨sameOutcome, same⟩ :=
          didChange_append_of_none isOpen tabled stop earlier version second
        rw [isLeft]
        refine ⟨sameOutcome.symm, fun current isOk => (same ?_).symm⟩
        exact (didChange_eq_ok_iff isOpen version (first ++ second)).mp ⟨current, isOk⟩

end Open

/-- A document whose carriage return and line feed become one line break as soon as the
character between them is taken out. -/
def almostJoined : Document :=
  .ofItem { uri := "file:///breaks.ts", version := 1, text := "a\r😀\nb" }

/-- Take that character out, then write something else on the line behind. -/
def joiningRevisions : List Revision :=
  [.stretch ⟨2, 3, []⟩, .stretch ⟨3, 4, [CodePoint.scalar 'c']⟩]

/-- The changes that tell this; both stretches are on the second line. -/
def joiningChanges : List Change :=
  [{ text := [], range := some ⟨⟨1, 0⟩, ⟨1, 2⟩⟩ },
   { text := [CodePoint.scalar 'c'], range := some ⟨⟨1, 0⟩, ⟨1, 1⟩⟩ }]

/-- A workspace in which a document is open. -/
def holding (document : Document) : Logged Workspace :=
  { state :=
      { protocol := Protocol.usual
        files := { directory := .ofString "/" }
        root := .ofString "/"
        settings := {}
        documents := [(document.uri, document)] } }

theorem didChange_inStep_joined :
    almostJoined.Reports joiningChanges joiningRevisions ∧
      (didChange almostJoined.uri 2 joiningChanges (holding almostJoined)).1 =
        .ok (almostJoined.update "a\r\nc" 2) ∧
      didChange almostJoined.uri 2 joiningChanges (holding almostJoined) =
        didChange almostJoined.uri 2 (joiningChanges.drop 1)
          (didChange almostJoined.uri 7 (joiningChanges.take 1) (holding almostJoined)).2 := by
  have firstFits : (Revision.stretch ⟨2, 3, []⟩).Fits almostJoined.text :=
    ⟨by decide, by decide, fun splits => absurd splits.around.2 (by decide),
      fun splits => absurd splits.around.1 (by decide)⟩
  have secondFits : (Revision.stretch ⟨3, 4, [CodePoint.scalar 'c']⟩).Fits ("a\r\nb" : Text) :=
    ⟨by decide, by decide, fun splits => absurd splits.around.1 (by decide),
      fun splits => absurd splits.around.1 (by decide)⟩
  have later :
      (almostJoined.update "a\r\nb" 1).Reports (joiningChanges.drop 1)
        (joiningRevisions.drop 1) :=
    .cons (by decide) secondFits (.nil _)
  have reports : almostJoined.Reports joiningChanges joiningRevisions :=
    .cons (by decide) firstFits later
  have isOpen : (holding almostJoined).state.document? almostJoined.uri = some almostJoined := rfl
  obtain ⟨inStep, appended⟩ := didChange_inStep isOpen (Document.ofItem_tabled _) 2
  obtain ⟨current, isCurrent, answered, _⟩ := inStep joiningChanges joiningRevisions reports
  have isOk := answered
  rw [isCurrent] at isOk
  exact ⟨reports, isOk,
    (appended 7 (joiningChanges.take 1) (joiningChanges.drop 1)).2 current answered⟩

def plain : Document :=
  .ofItem { uri := "file:///plain.ts", version := 1, text := "a" }

/-- A surrogate without a pair in place of everything, and a change behind it. -/
def stoppingChanges : List Change :=
  [{ text := [CodePoint.ofNat 0xD800] },
   { text := [], range := some ⟨⟨0, 1⟩, ⟨0, 1⟩⟩ }]

def renewingChanges : List Change :=
  [{ text := [CodePoint.scalar 'b'] }]

/-- The change behind the surrogate cannot be made.  It stops a notification of all the
changes, but not a second notification of those that follow it. -/
theorem didChange_append_differs :
    (didChange plain.uri 3 (stoppingChanges ++ renewingChanges) (holding plain)).2.state.document?
          plain.uri =
        some (plain.update [CodePoint.ofNat 0xD800] 1) ∧
      (didChange plain.uri 3 renewingChanges
            (didChange plain.uri 2 stoppingChanges (holding plain)).2).2.state.document?
          plain.uri =
        some (plain.update "b" 3) ∧
      plain.update [CodePoint.ofNat 0xD800] 1 ≠ plain.update "b" 3 := by
  decide

end Workspace

end Tidy
