import Tidy.Guard.Schedule

/-!
# Requests to a guard

A request to run under a key brings its own body, which is again a list of
requests; so runs nest as the requests do.
-/

namespace Tidy.Guard

inductive Request (Value : Type) where
  | acquire (key : String)
  | release (key : String)
  | busy (key : String)
  /-- Perform the body under a key, then end with the failure or the value. -/
  | run (key : String) (value : List Value) (failure : Option String)
      (body : List (Request Value))
  /-- Run tasks together. -/
  | gather (tasks : List (Task Value))

inductive Answer (Value : Type) where
  | done
  | busy (isBusy : Bool)
  /-- How a run ended, the replies of its body unless it was dropped, and
  whether its key is held afterwards. -/
  | ran (outcome : Except String (List Value)) (body : Option (List (Reply (Answer Value))))
      (busyAfter : Bool)
  | gathered (gathered : Gathered Value)

variable {Value : Type}

mutual

def Request.perform : Request Value → Act Guard (Answer Value)
  | .acquire key => do
      acquireNow key
      return .done
  | .release key => do
      releaseNow key
      return .done
  | .busy key => do
      return .busy (← busyNow key)
  | .run key value failure body => fun before =>
      let (replies, after) := attempt key (performAll body) before
      let outcome :=
        match replies, failure with
        | none, _ => .ok []
        | some _, some message => .error message
        | some _, none => .ok value
      (.ok (.ran outcome replies (after.state.isBusy key)), after)
  | .gather tasks => do
      return .gathered (← Task.gather tasks)

/-- Perform requests one after another; a fault does not stop the later ones. -/
def performAll : List (Request Value) → StateM (Logged Guard) (List (Reply (Answer Value)))
  | [] => fun logged => ([], logged)
  | request :: rest => fun before =>
      let (first, middle) := Act.reply request.perform before
      let (others, after) := performAll rest middle
      (first :: others, after)

end

end Tidy.Guard
