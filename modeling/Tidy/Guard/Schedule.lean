import Tidy.Guard.Basic

/-!
# Interleaved runs

Runs that wait inside their bodies interleave.  A schedule is the guard together
with all runs that were asked for, numbered in that order; starting and ending runs
in any order gives every interleaving.
-/

namespace Tidy

namespace Schedule

inductive Stage (Item : Type) where
  /-- Its key was busy, and its body did not start. -/
  | dropped
  /-- Its body has started and not ended. -/
  | running
  /-- Its body has ended, with items or with a fault. -/
  | ended (outcome : Except Fault (List Item))

/-- What a run gave back: nothing yet while its body is under way, no items when it
was dropped, else what its body ended with. -/
def Stage.outcome? {Item : Type} : Stage Item → Option (Except Fault (List Item))
  | .dropped => some (.ok [])
  | .running => none
  | .ended outcome => some outcome

structure Run (Item : Type) where
  key : String
  stage : Stage Item

namespace Run

variable {Item : Type}

def isRunning (run : Run Item) : Bool :=
  match run.stage with
  | .running => true
  | _ => false

def isDropped (run : Run Item) : Bool :=
  match run.stage with
  | .dropped => true
  | _ => false

def items (run : Run Item) : List Item :=
  match run.stage.outcome? with
  | some (.ok items) => items
  | _ => []

end Run

/-- What happens to a run. -/
inductive Event (Item : Type) where
  /-- A run asks for its key. -/
  | start (key : String)
  /-- The body of a run ends. -/
  | finish (number : Nat) (outcome : Except Fault (List Item))

end Schedule

/-- The guard, and the runs that were asked for. -/
structure Schedule (Item : Type) where
  guard : Guard
  runs : List (Schedule.Run Item) := []

namespace Schedule

variable {Item : Type}

/-- The schedule after one event: a run starts only when its key is free, and
only a run that is under way gives its key back. -/
def step (schedule : Schedule Item) : Event Item → Schedule Item
  | .start key =>
      match schedule.guard.acquire key with
      | .error _ => { schedule with runs := schedule.runs ++ [⟨key, .dropped⟩] }
      | .ok guard => { guard := guard, runs := schedule.runs ++ [⟨key, .running⟩] }
  | .finish number outcome =>
      match schedule.runs[number]? with
      | some ⟨key, .running⟩ =>
          { guard := schedule.guard.release key
            runs := schedule.runs.set number ⟨key, .ended outcome⟩ }
      | _ => schedule

def steps (schedule : Schedule Item) (events : List (Event Item)) : Schedule Item :=
  events.foldl step schedule

end Schedule

/-- A run that waits a number of times before it ends with its value. -/
structure Task (Value : Type) where
  key : String
  ticks : Nat
  value : Value

/-- What became of some tasks that ran together. -/
structure Gathered (Value : Type) where
  /-- The items of each task; none for a dropped one. -/
  values : List (List Value)
  /-- The tasks in the order in which they ended. -/
  order : List Nat

namespace Task

variable {Value : Type}

/-- The body of a task ends with its value. -/
def finish (number : Nat) (task : Task Value) : Schedule.Event Value :=
  .finish number (.ok [task.value])

/-- What happens when tasks start in their order, the first of them being run
`number`; one that does not wait ends at once. -/
def starts (number : Nat) : List (Task Value) → List (Schedule.Event Value)
  | [] => []
  | task :: rest =>
      .start task.key ::
        (if task.ticks == 0 then [finish number task] else []) ++ starts (number + 1) rest

/-- When each task ends: at once if it was dropped, else after its waits. -/
def endings (tasks : List (Task Value)) (runs : List (Schedule.Run Value)) :
    List (Nat × Nat) :=
  ((tasks.zip runs).map fun (task, run) => if run.isDropped then 0 else task.ticks).zipIdx

/-- The numbers of the tasks in the order in which they end. -/
def order (tasks : List (Task Value)) (runs : List (Schedule.Run Value)) : List Nat :=
  ((endings tasks runs).mergeSort fun left right => decide (left.1 ≤ right.1)).map Prod.snd

/-- What happens when tasks end in an order. -/
def finishes (tasks : List (Task Value)) (order : List Nat) : List (Schedule.Event Value) :=
  order.filterMap fun number => (tasks[number]?).map (finish number)

/-- Start all tasks, then let them end. -/
def gather (tasks : List (Task Value)) : Act Guard (Gathered Value) := do
  let guard ← Act.current
  let started := Schedule.steps { guard := guard } (starts 0 tasks)
  let dropped := started.runs.filter Schedule.Run.isDropped
  Act.write (dropped.map fun run => Guard.droppedNote run.key)
  let order := order tasks started.runs
  let ended := started.steps (finishes tasks order)
  Act.replaceState ended.guard
  return { values := ended.runs.map Schedule.Run.items, order := order }

end Task

end Tidy
