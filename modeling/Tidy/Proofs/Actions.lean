import Tidy.Host

/-!
# What actions do

Each action is told by its outcome and by the state and log that it leaves, so
that a sequence of actions is followed one step at a time.
-/

namespace Tidy

/-! ## Steps -/

namespace Act

variable {State First Second : Type}

/-- A fault ends a sequence, and a result is handed on. -/
theorem bind_apply
    (action : Act State First) (next : First → Act State Second) (before : Logged State) :
    (action >>= next) before =
      match action before with
      | (.ok result, after) => next result after
      | (.error fault, after) => (.error fault, after) := by
  change (ExceptT.bindCont next (action before).1) (action before).2 = _
  rcases action before with ⟨_ | _, after⟩ <;> rfl

theorem current_bind
    (next : State → Act State Second) (before : Logged State) :
    (current >>= next) before = next before.state before :=
  rfl

theorem write_bind
    (records : List Log.Record) (next : Unit → Act State Second) (before : Logged State) :
    (write records >>= next) before =
      next () { before with log := before.log ++ records } :=
  rfl

/-- A sequence behind a lifted outcome runs if the outcome is a result. -/
theorem lift_bind_outcome
    (outcome : Except Fault First) (next : First → Act State Second) (before : Logged State) :
    ((lift outcome >>= next) before).1 = outcome.bind fun result => (next result before).1 := by
  cases outcome <;> rfl

theorem lift_bind_state
    (outcome : Except Fault First) (next : First → Act State Second) (before : Logged State) :
    ((lift outcome >>= next) before).2 =
      outcome.toOption.elim before fun result => (next result before).2 := by
  cases outcome <;> rfl

/-- Writing records behind an action does not change its outcome. -/
theorem bind_write_outcome
    (action : Act State First) (records : First → List Log.Record) (complete : First → Second)
    (before : Logged State) :
    ((action >>= fun result => write (records result) >>= fun _ => pure (complete result))
        before).1 =
      (action before).1.map complete := by
  rw [bind_apply]
  rcases action before with ⟨_ | _, after⟩ <;> rfl

theorem bind_write_state
    (action : Act State First) (records : First → List Log.Record) (complete : First → Second)
    (before : Logged State) :
    ((action >>= fun result => write (records result) >>= fun _ => pure (complete result))
        before).2.state =
      (action before).2.state := by
  rw [bind_apply]
  rcases action before with ⟨_ | _, after⟩ <;> rfl

/-! ## Kept properties -/

/-- Whether an action keeps a property of the state, a fault or not. -/
def Keeps (property : State → Prop) (action : Act State First) : Prop :=
  ∀ before, property before.state → property (action before).2.state

section Keeps

variable {property : State → Prop}

theorem Keeps.bind
    {action : Act State First} {next : First → Act State Second}
    (first : Keeps property action)
    (second : ∀ result, Keeps property (next result)) :
    Keeps property (action >>= next) := by
  intro before holds
  have middle := first before holds
  rw [bind_apply]
  cases outcome : action before with
  | mk result after =>
      rw [outcome] at middle
      cases result with
      | error fault =>
          exact middle
      | ok result =>
          exact second result after middle

/-- What every step keeps a whole run keeps. -/
theorem keeps_foldlM
    {Item : Type} {step : First → Item → Act State First}
    (each : ∀ current item, Keeps property (step current item)) (items : List Item)
    (first : First) :
    Keeps property (items.foldlM step first) := by
  induction items generalizing first with
  | nil =>
      exact fun _ holds => holds
  | cons item rest inductionHypothesis =>
      rw [List.foldlM_cons]
      exact (each first item).bind inductionHypothesis

theorem keeps_current :
    Keeps property (current : Act State State) :=
  fun _ holds => holds

theorem keeps_write
    (records : List Log.Record) :
    Keeps property (write records) :=
  fun _ holds => holds

theorem keeps_lift
    (outcome : Except Fault First) :
    Keeps property (lift outcome) :=
  fun _ holds => holds

end Keeps

end Act

/-! ## Actions under the guard -/

theorem Guard.filter_ne_of_notMem
    {keys : List String} {key : String}
    (missing : key ∉ keys) :
    (keys.filter fun held => held != key) = keys := by
  apply List.filter_eq_self.mpr
  intro held member
  rw [bne_iff_ne]
  intro same
  exact missing (same ▸ member)

/-- Letting go of a key that was free before it was held. -/
theorem Guard.release_hold
    {guard : Guard} {key : String}
    (free : guard.isBusy key = false) :
    (guard.hold key).release key = guard := by
  have missing : key ∉ guard.busy := by
    simpa [isBusy] using free
  unfold release hold
  rw [List.filter_cons_of_neg (by simp), filter_ne_of_notMem missing]

section Guarded

variable {State Result : Type} [Guarded State] {before : Logged State} {key : String}

/-- A free key is held while the body runs, and let go of behind it. -/
theorem Guard.runOr_of_free
    (free : (Guarded.guard before.state).isBusy key = false)
    (dropped : Result) (body : Act State Result) :
    runOr key dropped body before =
      ((body (onState (fun guard => guard.hold key) before)).1,
        onState (fun guard => guard.release key)
          (body (onState (fun guard => guard.hold key) before)).2) := by
  unfold runOr attempt
  rw [free]
  rfl

/-- A request for a busy key leaves a record and nothing else. -/
theorem Guard.runOr_of_busy
    (busy : (Guarded.guard before.state).isBusy key = true)
    (dropped : Result) (body : Act State Result) :
    runOr key dropped body before =
      (.ok dropped, { before with log := before.log ++ [droppedNote key] }) := by
  unfold runOr attempt
  rw [busy]
  rfl

/-- A pass on a free key scans the text while the key is held, and pushes the edits. -/
theorem Host.formatPass_outcome
    (free : (Guarded.guard before.state).isBusy key = false)
    (host : Host State Result) (options : State → Options) (passes : List String)
    {held : State} {scanned : Scan}
    (isHeld : (Guard.onState (fun guard => guard.hold key) before).state = held)
    (isScanned : Scan.ofText (options held) passes (host.text held) = scanned) :
    (host.formatPass options key (some passes) before).1 =
      scanned.edits.bind fun edits =>
        (host.push edits ⟨held, before.log ++ scanned.records⟩).1.map fun receipt =>
          { edits := edits, receipt := receipt } := by
  subst held scanned
  unfold formatPass
  rw [Guard.runOr_of_free free, Act.current_bind, Act.write_bind]
  simp only [Act.lift_bind_outcome, Act.bind_write_outcome]
  rfl

/-- The state that a pass on a free key leaves. -/
theorem Host.formatPass_state
    (free : (Guarded.guard before.state).isBusy key = false)
    (host : Host State Result) (options : State → Options) (passes : List String)
    {held : State} {scanned : Scan}
    (isHeld : (Guard.onState (fun guard => guard.hold key) before).state = held)
    (isScanned : Scan.ofText (options held) passes (host.text held) = scanned) :
    ∃ after : State,
      (host.formatPass options key (some passes) before).2.state =
        Guarded.withGuard after ((Guarded.guard after).release key) ∧
      after =
        scanned.edits.toOption.elim held fun edits =>
          (host.push edits ⟨held, before.log ++ scanned.records⟩).2.state := by
  unfold formatPass
  rw [Guard.runOr_of_free free, Act.current_bind, Act.write_bind]
  refine ⟨_, rfl, ?_⟩
  simp only [Option.getD_some, isHeld, isScanned]
  cases scanned.edits with
  | error fault =>
      rfl
  | ok edits =>
      exact Act.bind_write_state ..

end Guarded

end Tidy
