import Tidy.Act

/-!
# The guard against reentrance

The guard knows which keys have a formatting pass under way.  A request for a
busy key is dropped, not queued; a request for a free key holds it until its
body has ended, whatever way the body ends.
-/

namespace Tidy

/-- The keys that are held. -/
structure Guard where
  busy : List String := []
  deriving DecidableEq

namespace Guard

def isBusy (guard : Guard) (key : String) : Bool :=
  guard.busy.contains key

def hold (guard : Guard) (key : String) : Guard :=
  { busy := key :: guard.busy }

/-- Let go of a key; nothing happens when it is not held. -/
def release (guard : Guard) (key : String) : Guard :=
  { busy := guard.busy.filter fun held => held != key }

def busyMessage (key : String) : String :=
  "Formatting already in progress for " ++ key

def busyDiagnostic (key : String) : Diagnostic :=
  { category := .reentrance, message := busyMessage key, place := { path := some key } }

/-- Hold a key, unless it is held already. -/
def acquire (guard : Guard) (key : String) : Except Fault Guard :=
  if guard.isBusy key then .error (.reported (busyDiagnostic key)) else .ok (guard.hold key)

def droppedNote (key : String) : Log.Record :=
  { level := .debug
    logger := "smartfmt.formatting.guard"
    message := busyMessage key ++ "; request dropped" }

end Guard

class Guarded (State : Type) where
  guard : State → Guard
  withGuard : State → Guard → State
  guard_withGuard : ∀ state other, guard (withGuard state other) = other := by intros; rfl

instance : Guarded Guard where
  guard := id
  withGuard := fun _ guard => guard

namespace Guard

variable {State Result Item : Type} [Guarded State]

def onState (change : Guard → Guard) (logged : Logged State) : Logged State :=
  { logged with
    state := Guarded.withGuard logged.state (change (Guarded.guard logged.state)) }

/-- Perform a body while its key is held; nothing, when the key is busy. -/
def attempt (key : String) (body : StateM (Logged State) Result) :
    StateM (Logged State) (Option Result) :=
  fun before =>
    if (Guarded.guard before.state).isBusy key then
      (none, { before with log := before.log ++ [droppedNote key] })
    else
      let (result, after) := body (onState (fun guard => guard.hold key) before)
      (some result, onState (fun guard => guard.release key) after)

/-- Perform an action while its key is held; a dropped request has the given
result. -/
def runOr (key : String) (dropped : Result) (body : Act State Result) : Act State Result :=
  fun before =>
    match attempt key body before with
    | (none, after) => (.ok dropped, after)
    | (some outcome, after) => (outcome, after)

/-- Perform an action while its key is held; a dropped request has no items. -/
def run (key : String) (body : Act State (List Item)) : Act State (List Item) :=
  runOr key [] body

def acquireNow (key : String) : Act State Unit := do
  let state ← Act.current
  let guard ← Act.lift ((Guarded.guard state).acquire key)
  Act.replaceState (Guarded.withGuard state guard)

def releaseNow (key : String) : Act State Unit := do
  let state ← Act.current
  Act.replaceState (Guarded.withGuard state ((Guarded.guard state).release key))

def busyNow (key : String) : Act State Bool := do
  let state ← Act.current
  return (Guarded.guard state).isBusy key

end Guard

end Tidy
