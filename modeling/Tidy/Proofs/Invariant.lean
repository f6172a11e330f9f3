import Tidy.Proofs.Commands
import Tidy.Workspace.Request

/-!
# What holds of a workspace at every moment

A workspace is seen between its requests, and while a client is asked to apply the edits
of a command.  At each of these moments the options in force are those of the settings,
documents are stored under their names, and exactly the documents with a command in
flight are busy.  One request preserves this, whichever way it ends, and by induction so
does everything that requests and clients can do.
-/

namespace Tidy.Workspace

variable {before : Logged Workspace} {command uri : String} {document : Document}

/-! ## What the other requests can do -/

/-- Whether an action returned with some settings and their options in force, and with
nothing else changed. -/
structure PutsInForce (workspace : Workspace) (settings : Settings)
    (ended : Except Fault Unit × Logged Workspace) : Prop where
  returned : ended.1 = .ok ()
  state_eq : ended.2.state = workspace.withSettings settings

theorem reload_of_load
    {settings : Settings}
    (loaded : Settings.load before.state.files before.state.root none = .ok settings) :
    PutsInForce before.state settings (reload before) := by
  unfold reload
  rw [Act.current_bind, loaded]
  obtain ⟨root, formatters, options, source⟩ := settings
  cases source with
  | none =>
      exact ⟨rfl, rfl⟩
  | some path =>
      exact ⟨rfl, rfl⟩

theorem reload_of_reported
    {diagnostic : Diagnostic}
    (failed :
      Settings.load before.state.files before.state.root none =
        .error (.reported diagnostic)) :
    PutsInForce before.state { root := some before.state.root } (reload before) := by
  unfold reload
  rw [Act.current_bind, failed]
  exact ⟨rfl, rfl⟩

theorem reload_of_unreported
    {fault : Fault}
    (failed : Settings.load before.state.files before.state.root none = .error fault)
    (unreported : ∀ diagnostic, fault ≠ .reported diagnostic) :
    reload before = (.error fault, before) := by
  unfold reload
  rw [Act.current_bind, failed]
  cases fault with
  | reported diagnostic =>
      exact absurd rfl (unreported diagnostic)
  | _ =>
      rfl

/-- What reading the settings again does: they come into force, or nothing happens. -/
theorem reload_cases
    (before : Logged Workspace) :
    (∃ settings,
      (reload before).1 = .ok () ∧ (reload before).2.state = before.state.withSettings settings) ∨
      (∃ fault, (reload before).1 = .error fault) ∧ (reload before).2 = before := by
  cases loaded : Settings.load before.state.files before.state.root none with
  | ok settings =>
      have inForce := reload_of_load loaded
      exact Or.inl ⟨settings, inForce.returned, inForce.state_eq⟩
  | error fault =>
      by_cases reported : ∃ diagnostic, fault = .reported diagnostic
      · obtain ⟨diagnostic, rfl⟩ := reported
        have inForce := reload_of_reported loaded
        exact Or.inl ⟨_, inForce.returned, inForce.state_eq⟩
      · have stopped := reload_of_unreported loaded (not_exists.mp reported)
        rw [stopped]
        exact Or.inr ⟨⟨fault, rfl⟩, rfl⟩

/-- The workspace in another folder, with the settings that it has. -/
def moved (workspace : Workspace) (rootUri : Option String) : Workspace :=
  { workspace with rootUri := rootUri, root := folderOf workspace.protocol workspace.files rootUri }

theorem setRoot_eq_reload
    (rootUri : Option String) (before : Logged Workspace) :
    setRoot rootUri before = reload { before with state := before.state.moved rootUri } :=
  rfl

theorem document?_withoutDocument
    (workspace : Workspace) (uri other : String) :
    (workspace.withoutDocument uri).document? other =
      if other = uri then none else workspace.document? other :=
  lookup_filter other uri workspace.documents

/-- What a notification leaves that one of its changes stops: the changes in front of it
are made, at the version that the document had. -/
def Stopped (before : Logged Workspace) (uri : String) (version : Int)
    (changes : List Change) (fault : Fault) (after : Workspace) : Prop :=
  ∃ made change rest document,
    changes = made ++ change :: rest ∧
    (didChange uri version made before).1 = .ok (document.update document.text version) ∧
    document.changed change = .error fault ∧
    document.uri = uri ∧
    document.version =
      (before.state.document? uri).elim version (fun document => document.version) ∧
    before.state.Stores document after

theorem stopped_of_fault
    {version : Int} {changes : List Change} {fault : Fault} {middle : Logged Workspace}
    (found : documentToChange document.uri version before = (.ok document, middle))
    (tabled : document.Tabled)
    (sameVersion : document.version =
      (before.state.document? document.uri).elim version (fun document => document.version))
    (stores : before.state.Stores document middle.state)
    (stopped : (didChange document.uri version changes before).1 = .error fault) :
    Stopped before document.uri version changes fault
      (didChange document.uri version changes before).2.state := by
  cases stop : (document.batch changes).2 with
  | none =>
      rw [didChange_of_none found stores.found stop] at stopped
      cases stopped
  | some other =>
      obtain ⟨after, later, isAfter⟩ := didChange_of_some found stores.found stop
      rw [isAfter] at stopped ⊢
      cases stopped
      obtain ⟨made, change, rest, isChanges, isMade, fails⟩ := Document.exists_stop stop
      have ofMade := didChange_of_none found stores.found (congrArg Prod.snd isMade)
      rw [isMade] at ofMade
      have isVersion : (document.batch changes).1.version = document.version := by
        rw [Document.batch_eq_update tabled]
        rfl
      exact ⟨made, change, rest, (document.batch changes).1, isChanges, congrArg Prod.fst ofMade,
        fails, document.batch_uri changes, isVersion.trans sameVersion,
        stores.trans later (document.batch_uri changes)⟩

/-- What a notification leaves that fails: nothing is touched when the document cannot be
read from its file, and otherwise one of the changes stops it. -/
theorem didChange_of_fault
    {version : Int} {changes : List Change} {fault : Fault}
    (stored : ∀ document, before.state.document? uri = some document →
      document.uri = uri ∧ document.Tabled)
    (stopped : (didChange uri version changes before).1 = .error fault) :
    (before.state.document? uri = none ∧
        fileText before.state.protocol before.state.files uri = .error fault ∧
        (didChange uri version changes before).2 = before) ∨
      Stopped before uri version changes fault
        (didChange uri version changes before).2.state := by
  cases isOpen : before.state.document? uri with
  | some document =>
      obtain ⟨rfl, tabled⟩ := stored document isOpen
      exact Or.inr (stopped_of_fault (documentToChange_of_open isOpen version) tabled
        (by rw [isOpen]; rfl) (stores_self isOpen) stopped)
  | none =>
      cases read : fileText before.state.protocol before.state.files uri with
      | ok text =>
          let document := Document.ofItem { uri := uri, version := version, text := text }
          have found : documentToChange document.uri version before =
              (.ok document, { before with state := before.state.withDocument document }) := by
            unfold documentToChange
            rw [Act.current_bind, show document.uri = uri from rfl, isOpen]
            simp only [read]
            rfl
          have sameVersion : document.version =
              (before.state.document? document.uri).elim version fun document =>
                document.version := by
            rw [show document.uri = uri from rfl, isOpen]
            rfl
          have stoppedHere : (didChange document.uri version changes before).1 = .error fault :=
            stopped
          exact Or.inr (stopped_of_fault found (Document.ofItem_tabled _) sameVersion
            (before.state.stores_withDocument document) stoppedHere)
      | error other =>
          have found : documentToChange uri version before = (.error other, before) := by
            unfold documentToChange
            rw [Act.current_bind, isOpen]
            simp only [read]
            rfl
          have ended : didChange uri version changes before = (.error other, before) := by
            unfold didChange
            rw [Act.bind_apply, found]
          rw [ended] at stopped ⊢
          cases stopped
          exact Or.inl ⟨rfl, rfl, rfl⟩

/-! ## The invariant -/

/-- What holds of a workspace while some commands are in flight, the last one first. -/
structure Sound (inFlight : List String) (workspace : Workspace) : Prop where
  options_eq : workspace.options = workspace.settings.options
  stored : ∀ uri document, workspace.document? uri = some document →
    document.uri = uri ∧ document.Tabled
  busy_eq : workspace.guard.busy = inFlight

variable {inFlight : List String} {workspace : Workspace}

theorem sound_create
    (protocol : Protocol) (files : FileTree) (rootUri : Option String)
    (settings : Option Settings) :
    Sound [] (create protocol files rootUri settings) where
  options_eq := rfl
  stored := by
    intro uri document isOpen
    cases isOpen
  busy_eq := rfl

theorem Sound.moved
    (sound : Sound inFlight workspace) (rootUri : Option String) :
    Sound inFlight (workspace.moved rootUri) where
  options_eq := sound.options_eq
  stored := sound.stored
  busy_eq := sound.busy_eq

theorem Sound.withSettings
    (sound : Sound inFlight workspace) (settings : Settings) :
    Sound inFlight (workspace.withSettings settings) where
  options_eq := rfl
  stored := sound.stored
  busy_eq := sound.busy_eq

theorem Sound.withDocument
    (sound : Sound inFlight workspace)
    {document : Document} (tabled : document.Tabled) :
    Sound inFlight (workspace.withDocument document) where
  options_eq := sound.options_eq
  stored := by
    intro uri other isOpen
    rw [document?_withDocument] at isOpen
    by_cases same : uri = document.uri
    · rw [if_pos same, Option.some.injEq] at isOpen
      subst other
      exact ⟨same.symm, tabled⟩
    · rw [if_neg same] at isOpen
      exact sound.stored uri other isOpen
  busy_eq := sound.busy_eq

theorem Sound.withoutDocument
    (sound : Sound inFlight workspace) (uri : String) :
    Sound inFlight (workspace.withoutDocument uri) where
  options_eq := sound.options_eq
  stored := by
    intro other document isOpen
    rw [document?_withoutDocument] at isOpen
    by_cases same : other = uri
    · rw [if_pos same] at isOpen
      cases isOpen
    · rw [if_neg same] at isOpen
      exact sound.stored other document isOpen
  busy_eq := sound.busy_eq

theorem Sound.asked
    {application : Application} {asked : Logged Workspace}
    (sound : Sound inFlight before.state)
    (asking : Asking command uri before application asked) :
    Sound (uri :: inFlight) asked.state := by
  rw [asking.held]
  exact
    { options_eq := sound.options_eq
      stored := sound.stored
      busy_eq := congrArg (uri :: ·) sound.busy_eq }

theorem Sound.freed
    (sound : Sound (uri :: inFlight) workspace)
    (wasFree : uri ∉ inFlight) :
    Sound inFlight (workspace.freed uri) where
  options_eq := sound.options_eq
  stored := sound.stored
  busy_eq := by
    have isFree : Guard.isBusy ⟨inFlight⟩ uri = false := by
      simpa [Guard.isBusy] using wasFree
    have held : workspace.guard = Guard.hold ⟨inFlight⟩ uri :=
      congrArg Guard.mk sound.busy_eq
    simp only [Workspace.freed, held, Guard.release_hold isFree]

/-! ## Reachable states -/

/-- What a workspace does at once, without asking anyone. -/
inductive Operation : {Result : Type} → Act Workspace Result → Prop where
  | setRoot (rootUri : Option String) : Operation (setRoot rootUri)
  | reload : Operation reload
  | didOpen (item : DocumentItem) : Operation (didOpen item)
  | didChange (uri : String) (version : Int) (changes : List Change) :
      Operation (didChange uri version changes)
  | didClose (uri : String) : Operation (didClose uri)
  | formatDocument (uri : String) : Operation (formatDocument uri)
  /-- Files may change in between. -/
  | changeFiles (change : FileTree → Except Fault FileTree) : Operation (changeFiles change)

/-- Whether one state leads to another, with the commands that are then in flight beyond
those at first.  A command can be seen while its client is asked, and behind its end; its
client may do whatever a state can lead to, and end with a verdict or a fault. -/
inductive Leads : Logged Workspace → List String → Logged Workspace → Prop where
  | here (origin : Logged Workspace) : Leads origin [] origin
  | operate {origin before : Logged Workspace} {inFlight : List String} {Result : Type}
      {action : Act Workspace Result}
      (path : Leads origin inFlight before)
      (operation : Operation action) :
      Leads origin inFlight (action before).2
  | ask {origin before asked : Logged Workspace} {inFlight : List String}
      {command uri : String} {application : Application}
      (path : Leads origin inFlight before)
      (asks : Asks command uri before application asked) :
      Leads origin (uri :: inFlight) asked
  | execute {origin before : Logged Workspace} {inFlight : List String}
      {command uri : String} {Extra : Type} {client : Client Extra}
      (path : Leads origin inFlight before)
      (nested : ∀ application asked, Asks command uri before application asked →
        Leads asked [] (client application asked).2) :
      Leads origin inFlight (executeCommand command uri client before).2

theorem keeps_sound_reload :
    Act.Keeps (Sound inFlight) reload := by
  intro before sound
  rcases reload_cases before with ⟨settings, _, isState⟩ | ⟨_, isState⟩
  · rw [isState]
    exact sound.withSettings settings
  · rw [isState]
    exact sound

theorem keeps_sound_store
    {document : Document}
    (tabled : document.Tabled) :
    Act.Keeps (Sound inFlight) (store document) :=
  fun _ sound => sound.withDocument tabled

theorem keeps_sound_documentToChange
    (uri : String) (version : Int) :
    Act.Keeps (Sound inFlight) (documentToChange uri version) := by
  intro before sound
  unfold documentToChange
  rw [Act.current_bind]
  cases before.state.document? uri with
  | some document =>
      exact sound
  | none =>
      exact (Act.keeps_lift _).bind
        (fun text => keeps_sound_store (Document.ofItem_tabled _)) before sound

theorem keeps_sound_applyChange
    (document : Document) (change : Change) :
    Act.Keeps (Sound inFlight) (applyChange document change) :=
  (Act.keeps_lift _).bind fun text => keeps_sound_store (document.update_tabled text _)

/-- Every document that a notification stores on its way has its table. -/
theorem keeps_sound_didChange
    (uri : String) (version : Int) (changes : List Change) :
    Act.Keeps (Sound inFlight) (didChange uri version changes) := by
  refine (keeps_sound_documentToChange uri version).bind fun document => ?_
  refine (Act.keeps_foldlM keeps_sound_applyChange changes document).bind fun changed => ?_
  exact keeps_sound_store (changed.update_tabled ..)

theorem Operation.keeps_sound
    {Result : Type} {action : Act Workspace Result}
    (operation : Operation action) :
    Act.Keeps (Sound inFlight) action := by
  intro before sound
  cases operation with
  | setRoot rootUri =>
      rw [setRoot_eq_reload]
      exact keeps_sound_reload _ (sound.moved rootUri)
  | reload =>
      exact keeps_sound_reload before sound
  | didOpen item =>
      exact sound.withDocument (Document.ofItem_tabled item)
  | didChange uri version changes =>
      exact keeps_sound_didChange uri version changes before sound
  | didClose uri =>
      exact sound.withoutDocument uri
  | formatDocument uri =>
      rw [formatDocument_state]
      exact sound
  | changeFiles change =>
      unfold Workspace.changeFiles
      rw [Act.current_bind]
      cases change before.state.files with
      | error fault =>
          exact sound
      | ok files =>
          exact
            { options_eq := sound.options_eq, stored := sound.stored, busy_eq := sound.busy_eq }

/-- What holds at first holds at the end, for the commands that are then in flight. -/
theorem Leads.sound
    {origin after : Logged Workspace}
    (path : Leads origin inFlight after)
    {outer : List String}
    (atFirst : Sound outer origin.state) :
    Sound (inFlight ++ outer) after.state := by
  -- What the client does is a path of its own, whose first state has the command in flight;
  -- so the commands in flight around a path must be free to vary.
  induction path generalizing outer with
  | here origin =>
      exact atFirst
  | operate path operation inductionHypothesis =>
      exact operation.keeps_sound _ (inductionHypothesis atFirst)
  | ask path asks inductionHypothesis =>
      exact (inductionHypothesis atFirst).asked (.of_asks asks)
  | @execute origin before inFlight command uri Extra client path nested inductionHypothesis
      nestedHypothesis =>
      have sound := inductionHypothesis atFirst
      rcases silent_or_asking command uri before with silent | ⟨application, asked, asking⟩
      · rw [silent.state_eq]
        exact sound
      · have wasFree : uri ∉ inFlight ++ outer := by
          have free := asking.free
          rw [Guard.isBusy, sound.busy_eq] at free
          simpa using free
        rw [asking.state_eq]
        exact (nestedHypothesis application asked asking.asks (sound.asked asking)).freed wasFree

theorem Leads.trans
    {first second third : Logged Workspace} {outer : List String}
    (path : Leads first outer second)
    (further : Leads second inFlight third) :
    Leads first (inFlight ++ outer) third := by
  induction further with
  | here origin =>
      exact path
  | operate _ operation inductionHypothesis =>
      exact .operate (inductionHypothesis path) operation
  | ask _ asks inductionHypothesis =>
      exact .ask (inductionHypothesis path) asks
  | execute _ nested inductionHypothesis _ =>
      exact .execute (inductionHypothesis path) nested

/-! ## Requests -/

mutual

/-- Whether a request leaves the guard to commands. -/
def Request.handsOff : Request → Bool
  | .acquire _ => false
  | .release _ => false
  | .command _ _ nested _ _ => handsOffAll nested
  | _ => true

def handsOffAll : List Request → Bool
  | [] => true
  | request :: rest => request.handsOff && handsOffAll rest

end

theorem leads_of_bind
    {First Second : Type} {action : Act Workspace First} {next : First → Act Workspace Second}
    (still : ∀ result after, (next result after).2 = after)
    (leads : Leads before [] (action before).2) :
    Leads before [] ((action >>= next) before).2 := by
  rw [Act.bind_apply]
  cases outcome : action before with
  | mk result after =>
      rw [outcome] at leads
      cases result with
      | error fault =>
          exact leads
      | ok result =>
          simp only [still]
          exact leads

theorem Operation.leads
    {Result : Type} {action : Act Workspace Result}
    (operation : Operation action) (before : Logged Workspace) :
    Leads before [] (action before).2 :=
  .operate (.here before) operation

mutual

theorem Request.leads
    (request : Request)
    (handsOff : request.handsOff = true) (before : Logged Workspace) :
    Leads before [] (request.perform before).2 := by
  cases request with
  | setRoot uri =>
      exact leads_of_bind (fun _ _ => rfl) ((Operation.setRoot uri).leads before)
  | reload =>
      exact leads_of_bind (fun _ _ => rfl) (Operation.reload.leads before)
  | write path node =>
      exact leads_of_bind (fun _ _ => rfl) ((Operation.changeFiles _).leads before)
  | remove path =>
      exact leads_of_bind (fun _ _ => rfl) ((Operation.changeFiles _).leads before)
  | «open» item =>
      rw [Request.perform, Act.current_bind, Act.lift_bind_state]
      cases before.state.protocol.checkOpened item with
      | error fault =>
          exact .here before
      | ok _ =>
          exact leads_of_bind (fun _ _ => rfl) ((Operation.didOpen item).leads before)
  | change uri version sent =>
      rw [Request.perform, Act.current_bind, Act.lift_bind_state]
      cases before.state.protocol.changes sent with
      | error fault =>
          exact .here before
      | ok changes =>
          exact leads_of_bind (fun _ _ => rfl)
            ((Operation.didChange uri version changes).leads before)
  | close uri =>
      exact leads_of_bind (fun _ _ => rfl) ((Operation.didClose uri).leads before)
  | format uri =>
      exact leads_of_bind (fun _ _ => rfl) ((Operation.formatDocument uri).leads before)
  | command command uri nested failure verdict =>
      apply leads_of_bind (fun _ _ => rfl)
      apply Leads.execute (.here before)
      intro application asked _
      have ofNested := leads_performAll nested handsOff asked
      cases failure <;> exact ofNested
  | acquire key =>
      cases handsOff
  | release key =>
      cases handsOff
  | passes uri =>
      rw [Request.perform, Act.current_bind]
      cases before.state.document? uri with
      | none =>
          exact .here before
      | some document =>
          exact .here before
  | describe | document uri | busy key =>
      exact .here before

/-- Requests lead from state to state, those of clients included. -/
theorem leads_performAll
    (requests : List Request)
    (handsOff : handsOffAll requests = true) (before : Logged Workspace) :
    Leads before [] (performAll requests before).2 := by
  cases requests with
  | nil =>
      exact .here before
  | cons request rest =>
      rw [handsOffAll, Bool.and_eq_true] at handsOff
      have first := request.leads handsOff.1 before
      exact first.trans (leads_performAll rest handsOff.2 (request.perform before).2)

end

/-! ## Faults -/

structure SameContents (left right : Workspace) : Prop where
  documents_eq : left.documents = right.documents
  settings_eq : left.settings = right.settings
  options_eq : left.options = right.options

theorem reload_of_fault
    {fault : Fault}
    (stopped : (reload before).1 = .error fault) :
    SameContents (reload before).2.state before.state := by
  rcases reload_cases before with ⟨settings, isOk, _⟩ | ⟨_, isState⟩
  · rw [isOk] at stopped
    cases stopped
  · rw [isState]
    exact ⟨rfl, rfl, rfl⟩

/-- Only the folder has moved when its settings cannot be read. -/
theorem setRoot_of_fault
    {rootUri : Option String} {fault : Fault}
    (stopped : (setRoot rootUri before).1 = .error fault) :
    SameContents (setRoot rootUri before).2.state before.state := by
  rw [setRoot_eq_reload] at stopped ⊢
  have same := reload_of_fault stopped
  exact ⟨same.documents_eq, same.settings_eq, same.options_eq⟩

/-- At every moment the options in force are those of the settings, every open document is
stored under its name with the table of its text, and the busy documents are those of the
commands in flight.  A fault in settings leaves documents, settings and options as they are,
and so does formatting.  A notification that a change stops keeps the changes in front of
it, at the version that the document had. -/
theorem reached_consistent
    {protocol : Protocol} {files : FileTree} {rootUri : Option String}
    {settings : Option Settings} {log : List Log.Record}
    (reached : Leads ⟨create protocol files rootUri settings, log⟩ inFlight before) :
    before.state.options = before.state.settings.options ∧
      (∀ uri document, before.state.document? uri = some document →
        document.uri = uri ∧ document.Laid) ∧
      (∀ uri, before.state.guard.isBusy uri = true ↔ uri ∈ inFlight) ∧
      (∀ uri version changes fault,
        (didChange uri version changes before).1 = .error fault →
          (before.state.document? uri = none ∧
              fileText before.state.protocol before.state.files uri = .error fault ∧
              (didChange uri version changes before).2 = before) ∨
            Stopped before uri version changes fault
              (didChange uri version changes before).2.state) ∧
      (∀ rootUri fault,
        (setRoot rootUri before).1 = .error fault →
          SameContents (setRoot rootUri before).2.state before.state) ∧
      (∀ fault,
        (reload before).1 = .error fault →
          SameContents (reload before).2.state before.state) ∧
      ∀ uri, (formatDocument uri before).2.state = before.state := by
  have sound := reached.sound (sound_create protocol files rootUri settings)
  rw [List.append_nil] at sound
  refine ⟨sound.options_eq, ?_, ?_, ?_, ?_, ?_, ?_⟩
  · intro uri document isOpen
    obtain ⟨sameName, tabled⟩ := sound.stored uri document isOpen
    exact ⟨sameName, tabled.laid⟩
  · intro uri
    rw [Guard.isBusy, sound.busy_eq, List.contains_iff_mem]
  · intro uri version changes fault stopped
    exact didChange_of_fault (sound.stored uri) stopped
  · intro rootUri fault stopped
    exact setRoot_of_fault stopped
  · intro fault stopped
    exact reload_of_fault stopped
  · intro uri
    exact formatDocument_state uri before

def unsorted : DocumentItem :=
  { uri := "file:///a.ts"
    languageId := some ("typescript" : Text)
    version := 1
    text := "import 'b'\r\nimport \x7b a \x7d from 'a'\r" }

/-- A workspace whose folder has a file that is no text. -/
def withUnreadable : Workspace :=
  create Protocol.usual { directory := .ofString "/", nodes := [(["bad"], .file [255])] } none none

def opened : Logged Workspace :=
  { state := withUnreadable.withDocument (.ofItem unsorted) }

theorem opens :
    Leads { state := withUnreadable } [] opened :=
  (Operation.didOpen unsorted).leads _

/-- What a client does while it is asked: it opens another document, wants the busy one to be
formatted, and runs a command whose own client closes the busy document and breaks off. -/
def meanwhile : List Request :=
  [.open { unsorted with uri := "file:///b.ts" },
   .format unsorted.uri,
   .command "sortImports" "file:///b.ts" [.close unsorted.uri, .reload] (some "no") none]

def during : Logged Workspace :=
  (performAll meanwhile (askedBy opened "sortImports" unsorted.uri (.ofItem unsorted))).2

theorem reached_consistent_during :
    Leads { state := withUnreadable } [unsorted.uri] during ∧
      during.state.options = during.state.settings.options ∧
      during.state.guard.isBusy unsorted.uri = true ∧
      during.state.guard.isBusy "file:///b.ts" = false ∧
      (formatDocument "file:///b.ts" during).2.state = during.state ∧
      (Document.ofItem unsorted).Laid ∧
      (∃ flaw,
        (didChange "bad" 2 [] opened).1 = .error (.undecodable flaw)) ∧
      Stopped opened unsorted.uri 2 stoppingChanges (.unencodable 0 0)
        (didChange unsorted.uri 2 stoppingChanges opened).2.state := by
  have scanned :
      (Scan.ofText opened.state.options ["sortImports"] unsorted.text).edits =
        .ok (scan {} ["sortImports"] unsorted.text) :=
    Scan.edits_of_indent rfl ["sortImports"] unsorted.text
  have someEdits : (scan {} ["sortImports"] unsorted.text).isEmpty = false := by
    decide +kernel
  have isCommand : commandFormatter? "sortImports" = some .sortImports := rfl
  have isOpen : opened.state.document? unsorted.uri = some (.ofItem unsorted) := rfl
  have encodable : unsorted.text.Encodable := Text.encodable_ofList _
  obtain ⟨textEdits, told⟩ := Document.exists_textEdits (Document.ofItem_tabled unsorted) encodable
    (scan {} ["sortImports"] unsorted.text)
  have prepared :
      requestFor opened.state.protocol (.ofItem unsorted) (scan {} ["sortImports"] unsorted.text) =
        .ok ⟨unsorted.uri, unsorted.version, textEdits⟩ := by
    unfold requestFor application
    rw [told]
    rfl
  have asks := asks_of_edits isCommand isOpen rfl rfl scanned someEdits prepared
  have reached : Leads { state := withUnreadable } [unsorted.uri] during :=
    (opens.ask asks).trans (leads_performAll meanwhile rfl _)
  have unreadable :
      (didChange "bad" 2 [] opened).1 = .error (.undecodable ⟨.invalidStart, 255, 0, 1⟩) := by
    decide +kernel
  have surrogate :
      (didChange unsorted.uri 2 stoppingChanges opened).1 = .error (.unencodable 0 0) := by
    decide
  obtain ⟨optionsEq, _, busyIff, _, _, _, formatted⟩ := reached_consistent reached
  obtain ⟨_, stored, _, ofFault, _, _, _⟩ := reached_consistent opens
  refine ⟨reached, optionsEq, ?_, ?_, formatted _, ?_, ⟨_, unreadable⟩, ?_⟩
  · exact (busyIff unsorted.uri).mpr (List.mem_singleton_self _)
  · exact Bool.eq_false_iff.mpr fun isBusy =>
      absurd (List.mem_singleton.mp ((busyIff "file:///b.ts").mp isBusy)) (by decide)
  · exact (stored unsorted.uri (.ofItem unsorted) rfl).2
  · rcases ofFault _ _ _ _ surrogate with ⟨notOpen, _⟩ | stopped
    · rw [isOpen] at notOpen
      cases notOpen
    · exact stopped

/-- The change behind the surrogate cannot be made, and the surrogate stays: a notification
that fails has changed the open document. -/
theorem didChange_keeps_changes :
    Leads { state := withUnreadable } [] opened ∧
      (didChange unsorted.uri 2 stoppingChanges opened).1 = .error (.unencodable 0 0) ∧
      (didChange unsorted.uri 2 stoppingChanges opened).2.state.document? unsorted.uri =
        some ((Document.ofItem unsorted).update [CodePoint.ofNat 0xD800] 1) ∧
      ¬ SameContents (didChange unsorted.uri 2 stoppingChanges opened).2.state opened.state := by
  have left :
      (didChange unsorted.uri 2 stoppingChanges opened).2.state.document? unsorted.uri =
        some ((Document.ofItem unsorted).update [CodePoint.ofNat 0xD800] 1) := by
    decide
  refine ⟨opens, by decide, left, fun same => ?_⟩
  rw [document?, same.documents_eq] at left
  exact absurd left (by decide)

end Tidy.Workspace
