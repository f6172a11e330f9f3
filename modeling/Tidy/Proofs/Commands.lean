import Tidy.Proofs.Delivery

/-!
# What a command can do

A command asks nobody and leaves the workspace as it is, or it asks its client once.
While the client is asked the document is busy; behind that, all that the client has
done to the workspace stays, a fault or not.
-/

namespace Tidy.Workspace

theorem push_state
    {document : Document} {Extra : Type} (client : Client Extra) (edits : List Edit)
    (asked : Logged Workspace) :
    ((hostOf document client).push edits asked).2.state =
      if edits.isEmpty then asked.state
      else
        (requestFor asked.state.protocol document edits).toOption.elim asked.state fun request =>
          (client request asked).2.state := by
  unfold Host.push
  split
  · rfl
  · rw [Act.bind_apply, replace_eq]
    cases requestFor asked.state.protocol document edits with
    | error fault =>
        rfl
    | ok request =>
        simp only [Act.bind_apply, Act.lift, Except.toOption, Option.elim]
        rcases client request asked with ⟨_ | _, after⟩ <;> rfl

variable {before : Logged Workspace} {command uri : String} {document : Document}

def observer : Client (Logged Workspace) :=
  fun _ asked => (.ok (none, asked), asked)

/-- Whether a command asks its client for something, and in which state. -/
def Asks (command uri : String) (before : Logged Workspace) (application : Application)
    (asked : Logged Workspace) : Prop :=
  (executeCommand command uri observer before).1.map Passed.receipt =
    .ok (some (application, asked))

/-- Whether a command asks nobody and leaves the workspace as it is. -/
structure Silent (command uri : String) (before : Logged Workspace) : Prop where
  not_asks : ∀ application asked, ¬ Asks command uri before application asked
  state_eq : ∀ {Extra : Type} (client : Client Extra),
    (executeCommand command uri client before).2.state = before.state

def freed (workspace : Workspace) (uri : String) : Workspace :=
  { workspace with guard := workspace.guard.release uri }

/-- What a command does that asks its client: the document is busy meanwhile, and what the
client leaves stays. -/
structure Asking (command uri : String) (before : Logged Workspace) (application : Application)
    (asked : Logged Workspace) : Prop where
  asks : Asks command uri before application asked
  free : before.state.guard.isBusy uri = false
  held : asked.state = { before.state with guard := before.state.guard.hold uri }
  state_eq : ∀ {Extra : Type} (client : Client Extra),
    (executeCommand command uri client before).2.state =
      freed (client application asked).2.state uri

/-- A command that is not dropped, up to its end. -/
theorem executeCommand_state
    {formatter : Formatter}
    (isCommand : commandFormatter? command = some formatter)
    (isOpen : before.state.document? uri = some document)
    (handled : handles formatter document.language = true)
    (free : before.state.guard.isBusy uri = false)
    {Extra : Type} (client : Client Extra) :
    (executeCommand command uri client before).2.state =
      (Scan.ofText before.state.options [command] document.text).edits.toOption.elim before.state
        fun edits =>
          if edits.isEmpty then before.state
          else
            (requestFor before.state.protocol document edits).toOption.elim before.state
              fun request =>
                freed (client request (askedBy before command uri document)).2.state uri := by
  have isFreed : freed (askedBy before command uri document).state uri = before.state := by
    simp only [freed, askedBy, Guard.release_hold free]
  have passed :
      ∃ after,
        ((hostOf document client).formatPass Workspace.options uri (some [command])
            before).2.state =
            freed after uri ∧
          after =
            (Scan.ofText before.state.options [command] document.text).edits.toOption.elim
              (askedBy before command uri document).state fun edits =>
                ((hostOf document client).push edits
                  (askedBy before command uri document)).2.state :=
    Host.formatPass_state free (hostOf document client) Workspace.options [command] rfl rfl
  obtain ⟨after, isState, isAfter⟩ := passed
  rw [executeCommand_of_handled isCommand isOpen handled, isState, isAfter]
  cases (Scan.ofText before.state.options [command] document.text).edits with
  | error fault =>
      exact isFreed
  | ok edits =>
      simp only [push_state, Except.toOption, Option.elim_some]
      by_cases noEdits : edits.isEmpty = true
      · rw [if_pos noEdits, if_pos noEdits]
        exact isFreed
      · rw [if_neg noEdits, if_neg noEdits]
        have sameProtocol :
            (askedBy before command uri document).state.protocol = before.state.protocol := rfl
        rw [sameProtocol]
        cases requestFor before.state.protocol document edits with
        | error fault =>
            exact isFreed
        | ok request =>
            rfl

theorem silent_of_outcome
    {outcome : Except Fault (Passed (Application × Logged Workspace))}
    (isOutcome : (executeCommand command uri observer before).1 = outcome)
    (noReceipt : ∀ receipt, outcome.map Passed.receipt ≠ .ok (some receipt))
    (state_eq : ∀ {Extra : Type} (client : Client Extra),
      (executeCommand command uri client before).2.state = before.state) :
    Silent command uri before where
  not_asks := by
    intro application asked asks
    rw [Asks, isOutcome] at asks
    exact noReceipt (application, asked) asks
  state_eq := state_eq

theorem asks_of_edits
    {formatter : Formatter} {edits : List Edit}
    (isCommand : commandFormatter? command = some formatter)
    (isOpen : before.state.document? uri = some document)
    (handled : handles formatter document.language = true)
    (free : before.state.guard.isBusy uri = false)
    (scanned : (Scan.ofText before.state.options [command] document.text).edits = .ok edits)
    (someEdits : edits.isEmpty = false)
    {request : Application}
    (prepared : requestFor before.state.protocol document edits = .ok request) :
    Asks command uri before request (askedBy before command uri document) := by
  rw [Asks, executeCommand_asking isCommand isOpen handled free, scanned]
  simp only [someEdits, prepared, Except.bind]
  rfl

/-- A command that is not dropped has edits for its client, or it asks nobody. -/
theorem silent_or_asking_of_free
    {formatter : Formatter}
    (isCommand : commandFormatter? command = some formatter)
    (isOpen : before.state.document? uri = some document)
    (handled : handles formatter document.language = true)
    (free : before.state.guard.isBusy uri = false) :
    Silent command uri before ∨
      ∃ application asked, Asking command uri before application asked := by
  have outcome := executeCommand_asking isCommand isOpen handled free observer
  have state : ∀ {Extra : Type} (client : Client Extra), _ :=
    fun client => executeCommand_state isCommand isOpen handled free client
  -- The client is reached behind three things that can go otherwise: the scan, the edits
  -- that it finds, and the request to make them.
  cases scanned : (Scan.ofText before.state.options [command] document.text).edits with
  | error fault =>
      simp only [scanned, Except.toOption, Option.elim] at outcome state
      exact Or.inl (silent_of_outcome outcome (by rintro receipt ⟨⟩) state)
  | ok edits =>
      simp only [scanned, Except.toOption, Option.elim] at outcome state
      by_cases noEdits : edits.isEmpty = true
      · simp only [noEdits, Except.bind, if_true] at outcome state
        exact Or.inl (silent_of_outcome outcome (by rintro receipt ⟨⟩) state)
      · cases prepared : requestFor before.state.protocol document edits with
        | error fault =>
            simp only [noEdits, prepared, Except.bind] at outcome state
            exact Or.inl (silent_of_outcome outcome (by rintro receipt ⟨⟩) state)
        | ok request =>
            have asks :=
              asks_of_edits isCommand isOpen handled free scanned
                (Bool.eq_false_iff.mpr noEdits) prepared
            simp only [noEdits, prepared] at state
            exact Or.inr ⟨_, _, { asks := asks, free := free, held := rfl, state_eq := state }⟩

theorem silent_of_dropped
    (dropped : ∀ {Extra : Type} (client : Client Extra),
      ∃ log, executeCommand command uri client before = (.ok {}, ⟨before.state, log⟩)) :
    Silent command uri before := by
  obtain ⟨log, isDropped⟩ := dropped observer
  refine silent_of_outcome (congrArg Prod.fst isDropped) (by rintro receipt ⟨⟩) ?_
  intro Extra client
  obtain ⟨log, isDropped⟩ := dropped client
  rw [isDropped]

theorem silent_or_asking
    (command uri : String) (before : Logged Workspace) :
    Silent command uri before ∨
      ∃ application asked, Asking command uri before application asked := by
  cases isCommand : commandFormatter? command with
  | none =>
      left
      apply silent_of_dropped
      intro Extra client
      simp only [executeCommand, isCommand]
      exact ⟨_, rfl⟩
  | some formatter =>
      cases isOpen : before.state.document? uri with
      | none =>
          left
          apply silent_of_dropped
          intro Extra client
          simp only [executeCommand, isCommand, Act.current_bind, isOpen]
          exact ⟨_, rfl⟩
      | some document =>
          by_cases handled : handles formatter document.language = true
          · by_cases isBusy : before.state.guard.isBusy uri = true
            · left
              apply silent_of_dropped
              intro Extra client
              rw [executeCommand_of_handled isCommand isOpen handled]
              exact ⟨_, Guard.runOr_of_busy isBusy ..⟩
            · exact silent_or_asking_of_free isCommand isOpen handled (Bool.eq_false_iff.mpr isBusy)
          · left
            apply silent_of_dropped
            intro Extra client
            simp only [executeCommand, isCommand, Act.current_bind, isOpen, if_neg handled]
            exact ⟨_, rfl⟩

/-- A command asks its client once at most. -/
theorem Asking.of_asks
    {application : Application} {asked : Logged Workspace}
    (asks : Asks command uri before application asked) :
    Asking command uri before application asked := by
  rcases silent_or_asking command uri before with silent | ⟨other, state, asking⟩
  · exact absurd asks (silent.not_asks application asked)
  · have same := asking.asks.symm.trans asks
    simp only [Except.ok.injEq, Option.some.injEq, Prod.mk.injEq] at same
    obtain ⟨rfl, rfl⟩ := same
    exact asking

end Tidy.Workspace
