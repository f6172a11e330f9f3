import Tidy.Fault
import Tidy.Log

/-!
# Actions

An action works on a state, writes log records and ends in a result or a fault.
A fault undoes nothing: the state reached and the records written stay.
-/

namespace Tidy

/-- A state together with the records written so far. -/
structure Logged (State : Type) where
  state : State
  log : List Log.Record := []

/-- An action on a state. -/
abbrev Act (State Result : Type) := ExceptT Fault (StateM (Logged State)) Result

/-- What came of one request, with the records written meanwhile. -/
structure Reply (Answer : Type) where
  outcome : Except Fault Answer
  records : List Log.Record

namespace Act

variable {State Result : Type}

def current : Act State State :=
  fun logged => (.ok logged.state, logged)

def replaceState (state : State) : Act State Unit :=
  fun logged => (.ok (), { logged with state := state })

def write (records : List Log.Record) : Act State Unit :=
  fun logged => (.ok (), { logged with log := logged.log ++ records })

def stop (fault : Fault) : Act State Result :=
  fun logged => (.error fault, logged)

/-- Go on with a result, or stop with its fault. -/
def lift (outcome : Except Fault Result) : Act State Result :=
  fun logged => (outcome, logged)

/-- Perform an action and report what came of it. -/
def reply (action : Act State Result) : StateM (Logged State) (Reply Result) :=
  fun before =>
    let (outcome, after) := action before
    ({ outcome := outcome, records := after.log.drop before.log.length }, after)

end Act

end Tidy
