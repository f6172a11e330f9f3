import Tidy.Guard.Request
import Tidy.Proofs.Actions

/-!
# One run for each key

However runs interleave and nest, the guard holds the keys that it held at first and
those of the runs under way, each for one run.  A run on a busy key is dropped and frees
nothing; any other run goes through its body and gives back what the body ends with.
When all runs are over, the guard is as it was.
-/

namespace Tidy

namespace Schedule

variable {Item : Type} {schedule : Schedule Item} {key : String} {number : Nat}

def IsRunning (schedule : Schedule Item) (number : Nat) (key : String) : Prop :=
  schedule.runs[number]? = some ⟨key, .running⟩

def outcome? (schedule : Schedule Item) (number : Nat) : Option (Except Fault (List Item)) :=
  (schedule.runs[number]?).bind fun run => run.stage.outcome?

def reached (initial : Guard) (events : List (Event Item)) : Schedule Item :=
  steps { guard := initial } events

/-! ## One event -/

theorem step_start_of_busy
    (busy : schedule.guard.isBusy key = true) :
    schedule.step (.start key) =
      { schedule with runs := schedule.runs ++ [⟨key, .dropped⟩] } := by
  simp only [step, Guard.acquire, busy, if_true]

theorem step_start_of_free
    (free : schedule.guard.isBusy key = false) :
    schedule.step (.start key) =
      { guard := schedule.guard.hold key, runs := schedule.runs ++ [⟨key, .running⟩] } := by
  simp only [step, Guard.acquire, free, Bool.false_eq_true, if_false]

theorem step_finish_of_running
    (running : schedule.IsRunning number key) (outcome : Except Fault (List Item)) :
    schedule.step (.finish number outcome) =
      { guard := schedule.guard.release key
        runs := schedule.runs.set number ⟨key, .ended outcome⟩ } := by
  unfold IsRunning at running
  simp only [step, running]

theorem step_finish_of_idle
    (idle : ∀ key, ¬ schedule.IsRunning number key) (outcome : Except Fault (List Item)) :
    schedule.step (.finish number outcome) = schedule := by
  simp only [step]
  split
  · rename_i key running
    exact absurd running (idle key)
  · rfl

/-! ## The keys that are held -/

/-- The keys of the runs under way, the last one first. -/
def heldKeys (runs : List (Run Item)) : List String :=
  ((runs.filter Run.isRunning).map Run.key).reverse

theorem heldKeys_append
    (front back : List (Run Item)) :
    heldKeys (front ++ back) = heldKeys back ++ heldKeys front := by
  simp [heldKeys]

theorem isRunning_iff
    {run : Run Item} :
    run.isRunning = true ↔ run = ⟨run.key, .running⟩ := by
  obtain ⟨key, stage⟩ := run
  cases stage <;> simp [Run.isRunning]

theorem mem_heldKeys
    {runs : List (Run Item)} :
    key ∈ heldKeys runs ↔ ∃ number : Nat, runs[number]? = some ⟨key, .running⟩ := by
  constructor
  · intro member
    simp only [heldKeys, List.mem_reverse, List.mem_map, List.mem_filter] at member
    obtain ⟨run, ⟨inRuns, running⟩, rfl⟩ := member
    rw [isRunning_iff] at running
    rw [← running]
    exact List.mem_iff_getElem?.mp inRuns
  · rintro ⟨number, found⟩
    simp only [heldKeys, List.mem_reverse, List.mem_map, List.mem_filter]
    exact ⟨_, ⟨List.mem_of_getElem? found, rfl⟩, rfl⟩

/-- The guard holds the keys of the runs under way, each of them once, and behind them
what it held at first. -/
structure HeldOver (initial : Guard) (schedule : Schedule Item) : Prop where
  busy_eq : schedule.guard.busy = heldKeys schedule.runs ++ initial.busy
  nodup : (heldKeys schedule.runs).Nodup
  fresh : ∀ key ∈ heldKeys schedule.runs, key ∉ initial.busy

variable {initial : Guard}

theorem HeldOver.start
    (heldOver : HeldOver initial schedule) (key : String) :
    HeldOver initial (schedule.step (.start key)) := by
  by_cases isBusy : schedule.guard.isBusy key = true
  · have unchanged : heldKeys (schedule.runs ++ [⟨key, .dropped⟩]) = heldKeys schedule.runs := by
      rw [heldKeys_append]
      rfl
    rw [step_start_of_busy isBusy]
    exact
      { busy_eq := by rw [unchanged]; exact heldOver.busy_eq
        nodup := by rw [unchanged]; exact heldOver.nodup
        fresh := by rw [unchanged]; exact heldOver.fresh }
  · have isFree : schedule.guard.isBusy key = false := Bool.eq_false_iff.mpr isBusy
    have notHeld : key ∉ heldKeys schedule.runs ++ initial.busy := by
      rw [← heldOver.busy_eq]
      intro member
      exact isBusy (List.contains_iff_mem.mpr member)
    rw [List.mem_append, not_or] at notHeld
    have gained :
        heldKeys (schedule.runs ++ [⟨key, .running⟩]) = key :: heldKeys schedule.runs := by
      rw [heldKeys_append]
      rfl
    rw [step_start_of_free isFree]
    refine { busy_eq := ?_, nodup := ?_, fresh := ?_ }
    · rw [gained, List.cons_append, ← heldOver.busy_eq]
      rfl
    · rw [gained]
      exact List.nodup_cons.mpr ⟨notHeld.1, heldOver.nodup⟩
    · rw [gained]
      exact List.forall_mem_cons.mpr ⟨notHeld.2, heldOver.fresh⟩

theorem HeldOver.finish
    (heldOver : HeldOver initial schedule) (number : Nat)
    (outcome : Except Fault (List Item)) :
    HeldOver initial (schedule.step (.finish number outcome)) := by
  by_cases underWay : ∃ key, schedule.IsRunning number key
  · obtain ⟨key, running⟩ := underWay
    obtain ⟨inside, isRun⟩ := List.getElem?_eq_some_iff.mp running
    -- The list is cut around the run that ends; runs that never held or no longer hold a
    -- key have no part in it.
    let front := heldKeys (schedule.runs.take number)
    let back := heldKeys (schedule.runs.drop (number + 1))
    have held : heldKeys schedule.runs = back ++ key :: front := by
      conv => lhs; rw [← List.take_append_drop number schedule.runs,
        List.drop_eq_getElem_cons inside, isRun]
      rw [List.append_cons, heldKeys_append, heldKeys_append]
      rfl
    have left :
        heldKeys (schedule.runs.set number ⟨key, .ended outcome⟩) = back ++ front := by
      rw [List.set_eq_take_append_cons_drop, if_pos inside, List.append_cons, heldKeys_append,
        heldKeys_append]
      rfl
    have nodup := heldOver.nodup
    rw [held, List.perm_middle.nodup_iff, List.nodup_cons] at nodup
    obtain ⟨onlyOnce, othersNodup⟩ := nodup
    have fresh := heldOver.fresh
    rw [held] at fresh
    have notInitial : key ∉ initial.busy := fresh key (by simp)
    have othersFresh : ∀ other ∈ back ++ front, other ∉ initial.busy := by
      intro other member
      apply fresh other
      rw [List.perm_middle.mem_iff]
      exact List.mem_cons_of_mem key member
    have released :
        (schedule.guard.release key).busy = (back ++ front) ++ initial.busy := by
      rw [List.mem_append, not_or] at onlyOnce
      simp only [Guard.release]
      rw [heldOver.busy_eq, held, List.filter_append, List.filter_append,
        List.filter_cons_of_neg (by simp), Guard.filter_ne_of_notMem onlyOnce.1,
        Guard.filter_ne_of_notMem onlyOnce.2, Guard.filter_ne_of_notMem notInitial]
    rw [step_finish_of_running running]
    exact
      { busy_eq := by rw [left]; exact released
        nodup := by rw [left]; exact othersNodup
        fresh := by rw [left]; exact othersFresh }
  · rw [step_finish_of_idle fun key running => underWay ⟨key, running⟩]
    exact heldOver

/-- Whatever happens to runs, only the keys of those under way are held beyond the first. -/
theorem heldOver_reached
    (initial : Guard) (events : List (Event Item)) :
    HeldOver initial (reached initial events) := by
  have kept :
      ∀ schedule : Schedule Item, HeldOver initial schedule →
        HeldOver initial (schedule.steps events) := by
    induction events with
    | nil =>
        intro schedule heldOver
        exact heldOver
    | cons event rest inductionHypothesis =>
        intro schedule heldOver
        apply inductionHypothesis (schedule.step event)
        cases event with
        | start key =>
            exact heldOver.start key
        | finish number outcome =>
            exact heldOver.finish number outcome
  apply kept
  exact { busy_eq := rfl, nodup := List.nodup_nil, fresh := by simp [heldKeys] }

theorem HeldOver.isBusy_iff
    (heldOver : HeldOver initial schedule) (key : String) :
    schedule.guard.isBusy key = true ↔
      initial.isBusy key = true ∨ ∃ number, schedule.IsRunning number key := by
  simp only [Guard.isBusy, List.contains_iff_mem]
  rw [heldOver.busy_eq, List.mem_append, mem_heldKeys, or_comm]
  rfl

theorem HeldOver.single
    (heldOver : HeldOver initial schedule)
    {first second : Nat}
    (firstRuns : schedule.IsRunning first key)
    (secondRuns : schedule.IsRunning second key) :
    first = second := by
  have apart := (List.reverse_perm _).nodup_iff.mp heldOver.nodup
  rw [List.Nodup, List.pairwise_map, List.pairwise_filter, List.pairwise_iff_getElem] at apart
  obtain ⟨firstInside, isFirst⟩ := List.getElem?_eq_some_iff.mp firstRuns
  obtain ⟨secondInside, isSecond⟩ := List.getElem?_eq_some_iff.mp secondRuns
  rcases Nat.lt_trichotomy first second with before | same | behind
  · have differ := apart first second firstInside secondInside before
    rw [isFirst, isSecond] at differ
    exact absurd rfl (differ rfl rfl)
  · exact same
  · have differ := apart second first secondInside firstInside behind
    rw [isFirst, isSecond] at differ
    exact absurd rfl (differ rfl rfl)

theorem HeldOver.guard_eq
    (heldOver : HeldOver initial schedule)
    (allEnded : ∀ number key, ¬ schedule.IsRunning number key) :
    schedule.guard = initial := by
  have nothing : heldKeys schedule.runs = [] := by
    apply List.eq_nil_iff_forall_not_mem.mpr
    intro key member
    obtain ⟨number, running⟩ := mem_heldKeys.mp member
    exact allEnded number key running
  have sameBusy := heldOver.busy_eq
  rw [nothing, List.nil_append] at sameBusy
  exact congrArg Guard.mk sameBusy

/-! ## What becomes of a run -/

/-- What an event ends the body of a numbered run with. -/
def Event.outcomeOf? (number : Nat) : Event Item → Option (Except Fault (List Item))
  | .start _ => none
  | .finish other outcome => if other = number then some outcome else none

/-- What becomes of a numbered run: a body under way ends with the first event that ends
it, and a run that is over stays so. -/
def Stage.after (number : Nat) (events : List (Event Item)) : Stage Item → Stage Item
  | .dropped => .dropped
  | .running => (events.findSome? (Event.outcomeOf? number)).elim .running .ended
  | .ended outcome => .ended outcome

theorem Stage.after_cons
    (number : Nat) (event : Event Item) (rest : List (Event Item)) (stage : Stage Item) :
    stage.after number (event :: rest) = (stage.after number [event]).after number rest := by
  cases stage with
  | dropped =>
      rfl
  | running =>
      simp only [after, List.findSome?_cons, List.findSome?_nil]
      cases event.outcomeOf? number <;> rfl
  | ended outcome =>
      rfl

theorem Stage.after_unrelated
    {event : Event Item}
    (unrelated : event.outcomeOf? number = none) (stage : Stage Item) :
    stage.after number [event] = stage := by
  cases stage with
  | running =>
      simp only [after, List.findSome?_cons, List.findSome?_nil, unrelated]
      rfl
  | dropped | ended outcome =>
      rfl

theorem step_run
    {stage : Stage Item}
    (found : schedule.runs[number]? = some ⟨key, stage⟩) (event : Event Item) :
    (schedule.step event).runs[number]? = some ⟨key, stage.after number [event]⟩ := by
  have inside := (List.getElem?_eq_some_iff.mp found).1
  cases event with
  | start other =>
      rw [Stage.after_unrelated rfl, ← found]
      by_cases isBusy : schedule.guard.isBusy other = true
      · rw [step_start_of_busy isBusy]
        exact List.getElem?_append_left inside
      · rw [step_start_of_free (Bool.eq_false_iff.mpr isBusy)]
        exact List.getElem?_append_left inside
  | finish other outcome =>
      by_cases same : other = number
      · subst other
        cases stage with
        | running =>
            rw [step_finish_of_running found]
            simp [Stage.after, Event.outcomeOf?, inside]
        | dropped | ended before =>
            have idle : ∀ other, ¬ schedule.IsRunning number other := by
              intro other running
              rw [IsRunning, found] at running
              simp at running
            rw [step_finish_of_idle idle, found]
            rfl
      · have unrelated : (Event.finish other outcome).outcomeOf? number = none := if_neg same
        rw [Stage.after_unrelated unrelated, ← found]
        by_cases underWay : ∃ otherKey, schedule.IsRunning other otherKey
        · obtain ⟨otherKey, running⟩ := underWay
          rw [step_finish_of_running running]
          exact List.getElem?_set_ne same
        · rw [step_finish_of_idle fun otherKey running => underWay ⟨otherKey, running⟩]

theorem steps_run
    {stage : Stage Item}
    (found : schedule.runs[number]? = some ⟨key, stage⟩) (events : List (Event Item)) :
    (schedule.steps events).runs[number]? = some ⟨key, stage.after number events⟩ := by
  induction events generalizing schedule stage with
  | nil =>
      rw [steps, List.foldl_nil, found]
      cases stage <;> rfl
  | cons event rest inductionHypothesis =>
      rw [Stage.after_cons]
      exact inductionHypothesis (step_run found event)

/-- A run that was asked for is over once its body has been ended. -/
theorem not_isRunning_of_finish
    {events : List (Event Item)} {outcome : Except Fault (List Item)}
    (inside : number < schedule.runs.length)
    (finished : .finish number outcome ∈ events) :
    ¬ (schedule.steps events).IsRunning number key := by
  intro running
  have found := steps_run (List.getElem?_eq_getElem inside) events
  rw [IsRunning, found] at running
  cases isStage : (schedule.runs[number]).stage with
  | running =>
      cases isEnd : events.findSome? (Event.outcomeOf? number) with
      | none =>
          have unrelated := List.findSome?_eq_none_iff.mp isEnd _ finished
          simp [Event.outcomeOf?] at unrelated
      | some outcome =>
          simp [Stage.after, isStage, isEnd] at running
  | dropped | ended outcome =>
      simp [Stage.after, isStage] at running

theorem reached_append
    (initial : Guard) (events later : List (Event Item)) :
    reached initial (events ++ later) = (reached initial events).steps later :=
  List.foldl_append

/-- A run on a busy key changes nothing that the guard holds, and its body never starts. -/
theorem steps_dropped
    (busy : schedule.guard.isBusy key = true) (events : List (Event Item)) :
    (schedule.steps [.start key]).guard = schedule.guard ∧
      (schedule.steps (.start key :: events)).runs[schedule.runs.length]? =
        some ⟨key, .dropped⟩ := by
  have dropped :
      (schedule.step (.start key)).runs[schedule.runs.length]? = some ⟨key, .dropped⟩ := by
    rw [step_start_of_busy busy]
    simp
  refine ⟨?_, steps_run dropped events⟩
  simp only [steps, List.foldl_cons, List.foldl_nil]
  rw [step_start_of_busy busy]

/-- A run on a free key starts its body and gives back what the body ends with. -/
theorem steps_started
    (free : schedule.guard.isBusy key = false) (events : List (Event Item)) :
    (schedule.steps [.start key]).IsRunning schedule.runs.length key ∧
      (schedule.steps (.start key :: events)).outcome? schedule.runs.length =
        events.findSome? (Event.outcomeOf? schedule.runs.length) := by
  have started : (schedule.step (.start key)).IsRunning schedule.runs.length key := by
    rw [step_start_of_free free, IsRunning]
    simp
  refine ⟨started, ?_⟩
  have later := steps_run started events
  simp only [steps, List.foldl_cons, outcome?] at later ⊢
  rw [later]
  simp only [Stage.after, Option.bind_some]
  cases events.findSome? (Event.outcomeOf? schedule.runs.length) <;> rfl

end Schedule

/-! ## Tasks that run together -/

namespace Task

open Schedule

variable {Value : Type}

theorem length_runs_finish
    (schedule : Schedule Value) (number : Nat) (outcome : Except Fault (List Value)) :
    (schedule.step (.finish number outcome)).runs.length = schedule.runs.length := by
  by_cases underWay : ∃ key, schedule.IsRunning number key
  · obtain ⟨key, running⟩ := underWay
    rw [step_finish_of_running running, List.length_set]
  · rw [step_finish_of_idle fun key running => underWay ⟨key, running⟩]

theorem length_runs_start
    (schedule : Schedule Value) (key : String) :
    (schedule.step (.start key)).runs.length = schedule.runs.length + 1 := by
  by_cases isBusy : schedule.guard.isBusy key = true
  · rw [step_start_of_busy isBusy, List.length_append, List.length_singleton]
  · rw [step_start_of_free (Bool.eq_false_iff.mpr isBusy), List.length_append,
      List.length_singleton]

theorem length_runs_starts
    (schedule : Schedule Value) (number : Nat) (tasks : List (Task Value)) :
    (schedule.steps (starts number tasks)).runs.length =
      schedule.runs.length + tasks.length := by
  induction tasks generalizing schedule number with
  | nil =>
      rfl
  | cons task rest inductionHypothesis =>
      rw [starts, List.cons_append, steps, List.foldl_cons, List.foldl_append]
      change (steps (List.foldl step (schedule.step (.start task.key)) _) _).runs.length = _
      rw [inductionHypothesis]
      have started := length_runs_start schedule task.key
      by_cases atOnce : (task.ticks == 0) = true
      · rw [if_pos atOnce]
        have ended :=
          length_runs_finish (schedule.step (.start task.key)) number (.ok [task.value])
        simp only [finish, List.foldl_cons, List.foldl_nil, List.length_cons]
        omega
      · rw [if_neg atOnce]
        simp only [List.foldl_nil, List.length_cons]
        omega

theorem length_runs_finishes
    (schedule : Schedule Value) (tasks : List (Task Value)) (order : List Nat) :
    (schedule.steps (finishes tasks order)).runs.length = schedule.runs.length := by
  induction order generalizing schedule with
  | nil =>
      rfl
  | cons number rest inductionHypothesis =>
      cases found : tasks[number]? with
      | none =>
          have skipped : finishes tasks (number :: rest) = finishes tasks rest := by
            simp [finishes, found]
          rw [skipped]
          exact inductionHypothesis schedule
      | some task =>
          have first :
              finishes tasks (number :: rest) = finish number task :: finishes tasks rest := by
            simp [finishes, found]
          rw [first]
          exact (inductionHypothesis _).trans (length_runs_finish ..)

theorem mem_order
    {tasks : List (Task Value)} {runs : List (Run Value)} {number : Nat}
    (sameLength : runs.length = tasks.length)
    (inside : number < tasks.length) :
    number ∈ order tasks runs := by
  have numbered : (endings tasks runs).map Prod.snd = List.range' 0 tasks.length := by
    rw [endings, List.zipIdx_map_snd, List.length_map, List.length_zip, sameLength, Nat.min_self]
  have permuted : (order tasks runs).Perm ((endings tasks runs).map Prod.snd) :=
    (List.mergeSort_perm ..).map Prod.snd
  rw [permuted.mem_iff, numbered, List.mem_range'_1]
  omega

/-- All tasks end, so that nothing stays held. -/
theorem gather_guard
    (tasks : List (Task Value)) (before : Logged Guard) :
    (gather tasks before).2.state = before.state := by
  let started := steps { guard := before.state } (starts 0 tasks)
  let ended := started.steps (finishes tasks (order tasks started.runs))
  have isEnded :
      ended =
        reached before.state (starts 0 tasks ++ finishes tasks (order tasks started.runs)) :=
    (reached_append ..).symm
  have startedLength : started.runs.length = tasks.length :=
    (length_runs_starts ..).trans (Nat.zero_add _)
  have allEnded : ∀ number key, ¬ ended.IsRunning number key := by
    intro number key running
    have inside : number < tasks.length := by
      have insideRuns := (List.getElem?_eq_some_iff.mp running).1
      rw [length_runs_finishes, startedLength] at insideRuns
      exact insideRuns
    have ends :
        finish number tasks[number] ∈ finishes tasks (order tasks started.runs) := by
      apply List.mem_filterMap.mpr
      refine ⟨number, mem_order startedLength inside, ?_⟩
      rw [List.getElem?_eq_getElem inside]
      rfl
    rw [← startedLength] at inside
    exact not_isRunning_of_finish inside ends running
  have heldOver := heldOver_reached before.state
    (starts 0 tasks ++ finishes tasks (order tasks started.runs))
  rw [← isEnded] at heldOver
  exact heldOver.guard_eq allEnded

end Task

/-! ## Runs inside runs -/

namespace Guard

section Guarded

variable {State Item : Type} [Guarded State] {before : Logged State} {key : String}

theorem guard_onState
    (change : Guard → Guard) (logged : Logged State) :
    Guarded.guard (onState change logged).state = change (Guarded.guard logged.state) :=
  Guarded.guard_withGuard ..

/-- What happens to the guard while a run goes through its body is what happens between
the start of the run and its end. -/
theorem run_inStep
    {schedule : Schedule Item}
    (inStep : schedule.guard = Guarded.guard before.state)
    (free : schedule.guard.isBusy key = false)
    (body : Act State (List Item)) {held : Logged State}
    (isHeld : held = onState (fun guard => guard.hold key) before) :
    Guarded.guard held.state = (schedule.step (.start key)).guard ∧
      (run key body before).1 = (body held).1 ∧
      ∀ during : Schedule Item,
        during.guard = Guarded.guard (body held).2.state →
        during.IsRunning schedule.runs.length key →
        Guarded.guard (run key body before).2.state =
          (during.step (.finish schedule.runs.length (body held).1)).guard := by
  have isFree : (Guarded.guard before.state).isBusy key = false := inStep ▸ free
  have ran := runOr_of_free isFree [] body
  rw [← isHeld] at ran
  refine ⟨?_, ?_, ?_⟩
  · rw [isHeld, guard_onState, Schedule.step_start_of_free free, inStep]
  · rw [run, ran]
  · intro during follows running
    rw [run, ran, guard_onState, Schedule.step_finish_of_running running, follows]

end Guarded

variable {Value : Type}

mutual

/-- Whether a request holds and lets go of keys only by runs. -/
def Request.handsOff : Request Value → Bool
  | .acquire _ => false
  | .release _ => false
  | .busy _ => true
  | .run _ _ _ body => handsOffAll body
  | .gather _ => true

def handsOffAll : List (Request Value) → Bool
  | [] => true
  | request :: rest => request.handsOff && handsOffAll rest

end

theorem attempt_state
    {Result : Type} {body : StateM (Logged Guard) Result}
    (keeps : ∀ before, (body before).2.state = before.state)
    (key : String) (before : Logged Guard) :
    (attempt key body before).2.state = before.state := by
  unfold attempt
  by_cases isBusy : (Guarded.guard before.state).isBusy key = true
  · rw [if_pos isBusy]
  · rw [if_neg isBusy]
    change ((body _).2.state).release key = before.state
    rw [keeps]
    exact release_hold (Bool.eq_false_iff.mpr isBusy)

mutual

theorem Request.perform_state
    (request : Request Value)
    (handsOff : request.handsOff = true) (before : Logged Guard) :
    (request.perform before).2.state = before.state := by
  cases request with
  | acquire key =>
      cases handsOff
  | release key =>
      cases handsOff
  | busy key =>
      rfl
  | run key value failure body =>
      exact attempt_state (performAll_state body handsOff) key before
  | gather tasks =>
      exact Task.gather_guard tasks before

/-- Runs inside one another's bodies, and beside one another, leave the guard as it was. -/
theorem performAll_state
    (requests : List (Request Value))
    (handsOff : handsOffAll requests = true) (before : Logged Guard) :
    (performAll requests before).2.state = before.state := by
  cases requests with
  | nil =>
      rfl
  | cons request rest =>
      rw [handsOffAll, Bool.and_eq_true] at handsOff
      have first := request.perform_state handsOff.1 before
      have others := performAll_state rest handsOff.2 (Act.reply request.perform before).2
      exact others.trans first

end

/-! ## The promise of the guard -/

/-- What holds at any moment: some events have happened to a guard, and a run may be the
next to ask for a key. -/
structure Exclusive {Item : Type} (initial : Guard) (events : List (Schedule.Event Item)) :
    Prop where
  busy_iff : ∀ key,
    (Schedule.reached initial events).guard.isBusy key = true ↔
      initial.isBusy key = true ∨
        ∃ number, (Schedule.reached initial events).IsRunning number key
  single : ∀ key first second,
    (Schedule.reached initial events).IsRunning first key →
    (Schedule.reached initial events).IsRunning second key →
      first = second
  /-- A run on a busy key changes no key, never goes through its body and has no items,
  whatever happens later. -/
  dropped : ∀ key number later,
    (Schedule.reached initial events).guard.isBusy key = true →
    number = (Schedule.reached initial events).runs.length →
      (Schedule.reached initial (events ++ [.start key])).guard =
          (Schedule.reached initial events).guard ∧
        (Schedule.reached initial (events ++ .start key :: later)).runs[number]? =
          some ⟨key, .dropped⟩ ∧
        (Schedule.reached initial (events ++ .start key :: later)).outcome? number =
          some (.ok [])
  /-- A run on a free key goes through its body and gives back what the body ends with. -/
  started : ∀ key number later,
    (Schedule.reached initial events).guard.isBusy key = false →
    number = (Schedule.reached initial events).runs.length →
      (Schedule.reached initial (events ++ [.start key])).IsRunning number key ∧
        (Schedule.reached initial (events ++ .start key :: later)).outcome? number =
          later.findSome? (Schedule.Event.outcomeOf? number)
  restored :
    (∀ number key, ¬ (Schedule.reached initial events).IsRunning number key) →
      (Schedule.reached initial events).guard = initial

/-- What a run does in a state whose guard some events have led to. -/
structure RunsInStep {State Item : Type} [Guarded State] (initial : Guard)
    (events : List (Schedule.Event Item)) (before : Logged State) (key : String)
    (body : Act State (List Item)) : Prop where
  dropped :
    (Schedule.reached initial events).guard.isBusy key = true →
      run key body before =
        (.ok [], { before with log := before.log ++ [droppedNote key] })
  /-- The run enters its body as a run that starts, hands on the outcome of the body, a
  fault or not, and leaves as a run that ends, whatever happens to other runs meanwhile. -/
  started : ∀ held,
    (Schedule.reached initial events).guard.isBusy key = false →
    held = onState (fun guard => guard.hold key) before →
      Guarded.guard held.state = (Schedule.reached initial (events ++ [.start key])).guard ∧
        (run key body before).1 = (body held).1 ∧
        ∀ number during,
          number = (Schedule.reached initial events).runs.length →
          (Schedule.reached initial (events ++ .start key :: during)).guard =
            Guarded.guard (body held).2.state →
          (Schedule.reached initial (events ++ .start key :: during)).IsRunning number key →
            Guarded.guard (run key body before).2.state =
              (Schedule.reached initial
                (events ++ .start key :: during ++ [.finish number (body held).1])).guard

theorem exclusive
    {Item : Type} (initial : Guard) (events : List (Schedule.Event Item)) :
    Exclusive initial events := by
  have heldOver := Schedule.heldOver_reached initial events
  refine
    { busy_iff := heldOver.isBusy_iff
      single := fun key first second => heldOver.single
      dropped := ?_
      started := ?_
      restored := heldOver.guard_eq }
  · rintro key number later busy rfl
    obtain ⟨sameGuard, isDropped⟩ := Schedule.steps_dropped busy later
    rw [Schedule.reached_append, Schedule.reached_append]
    refine ⟨sameGuard, isDropped, ?_⟩
    rw [Schedule.outcome?, isDropped]
    rfl
  · rintro key number later free rfl
    rw [Schedule.reached_append, Schedule.reached_append]
    exact Schedule.steps_started free later

theorem runsInStep
    {State Item : Type} [Guarded State] {initial : Guard}
    {events : List (Schedule.Event Item)} {before : Logged State}
    (inStep : (Schedule.reached initial events).guard = Guarded.guard before.state)
    (key : String) (body : Act State (List Item)) :
    RunsInStep initial events before key body where
  dropped := by
    intro busy
    rw [inStep] at busy
    exact runOr_of_busy busy [] body
  started := by
    intro held free isHeld
    obtain ⟨enters, handsOn, leaves⟩ := run_inStep inStep free body isHeld
    refine ⟨?_, handsOn, ?_⟩
    · rw [enters, Schedule.reached_append]
      rfl
    · rintro number during rfl follows running
      rw [leaves _ follows running, Schedule.reached_append initial (events ++ _)]
      rfl

/-- Runs exclude one another, however they interleave: at every moment the guard keeps its
promise, a run in the midst of other runs does what the events of its start and its end
say, and runs inside one another's bodies leave the guard as it was. -/
theorem runs_exclude
    {Item : Type} (initial : Guard) (events : List (Schedule.Event Item)) :
    Exclusive initial events ∧
      (∀ {State : Type} [Guarded State] (before : Logged State),
        (Schedule.reached initial events).guard = Guarded.guard before.state →
          ∀ key (body : Act State (List Item)), RunsInStep initial events before key body) ∧
      ∀ requests : List (Request Item), handsOffAll requests = true →
        ∀ before : Logged Guard, (performAll requests before).2.state = before.state := by
  refine ⟨exclusive initial events, ?_, ?_⟩
  · intro State _ before inStep key body
    exact runsInStep inStep key body
  · intro requests handsOff before
    exact performAll_state requests handsOff before

/-- Two runs cross while a third one asks for the key of the first; then the first one
ends with a fault and the second one with an item. -/
def crossing : List (Schedule.Event Nat) :=
  [.start "b", .start "c", .start "b", .finish 0 (.error (.refused "no")), .finish 1 (.ok [7])]

/-- A run whose body asks for its own key, for a free one and for one that is held. -/
def nesting : List (Request Nat) :=
  [.run "b" [1] (some "no") [.run "b" [2] none [], .run "c" [3] none [], .run "a" [4] none []]]

theorem runs_exclude_crossing :
    (Schedule.reached ⟨["a"]⟩ (crossing.take 2)).IsRunning 0 "b" ∧
      (Schedule.reached ⟨["a"]⟩ (crossing.take 2)).guard.isBusy "b" = true ∧
      (Schedule.reached ⟨["a"]⟩ crossing).outcome? 2 = some (.ok []) ∧
      (Schedule.reached ⟨["a"]⟩ crossing).outcome? 0 = some (.error (.refused "no")) ∧
      (Schedule.reached ⟨["a"]⟩ crossing).guard = ⟨["a"]⟩ ∧
      (run "b" (Act.stop (.refused "no") : Act Guard (List Nat)) { state := ⟨["a"]⟩ }).1 =
        .error (.refused "no") ∧
      handsOffAll nesting = true ∧
      (performAll nesting { state := ⟨["a"]⟩ }).2.state = ⟨["a"]⟩ := by
  have running : (Schedule.reached ⟨["a"]⟩ (crossing.take 2)).IsRunning 0 "b" := rfl
  have allEnded : ∀ number key, ¬ (Schedule.reached ⟨["a"]⟩ crossing).IsRunning number key := by
    intro number key running
    have isReached :
        (Schedule.reached ⟨["a"]⟩ crossing).runs =
          [⟨"b", .ended (.error (.refused "no"))⟩, ⟨"c", .ended (.ok [7])⟩, ⟨"b", .dropped⟩] :=
      rfl
    rw [Schedule.IsRunning, isReached] at running
    simpa using List.mem_of_getElem? running
  obtain ⟨atFirst, runs, nested⟩ := runs_exclude ⟨["a"]⟩ (crossing.take 0)
  obtain ⟨between, _, _⟩ := runs_exclude ⟨["a"]⟩ (crossing.take 2)
  obtain ⟨atLast, _, _⟩ := runs_exclude ⟨["a"]⟩ crossing
  have busy := (between.busy_iff "b").mpr (Or.inr ⟨0, running⟩)
  obtain ⟨_, _, droppedOutcome⟩ := between.dropped "b" 2 (crossing.drop 3) busy rfl
  obtain ⟨_, startedOutcome⟩ := atFirst.started "b" 0 (crossing.drop 1) rfl rfl
  have inStep := runs { state := (⟨["a"]⟩ : Guard) } rfl "b" (Act.stop (.refused "no"))
  obtain ⟨_, handsOn, _⟩ := inStep.started _ rfl rfl
  exact ⟨running, busy, droppedOutcome, startedOutcome, atLast.restored allEnded, handsOn, rfl,
    nested nesting rfl { state := ⟨["a"]⟩ }⟩

end Guard

end Tidy
