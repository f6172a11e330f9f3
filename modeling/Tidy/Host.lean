import Tidy.Guard.Basic
import Tidy.Region

/-!
# Formatting passes

A pass formats one document once, under the guard, and hands the edits to
whoever holds the document.
-/

namespace Tidy

/-- What a formatting pass needs from the holder of a document, who gives a
receipt for edits. -/
structure Host (State Receipt : Type) where
  text : State → Text
  language : State → Language
  replace : List Edit → Act State Receipt

/-- What came of a pass: the edits, and the receipt if there were any. -/
structure Passed (Receipt : Type) where
  edits : List Edit := []
  receipt : Option Receipt := none

namespace Host

variable {State Receipt : Type} [Guarded State]

def push (host : Host State Receipt) (edits : List Edit) : Act State (Option Receipt) :=
  if edits.isEmpty then return none else return some (← host.replace edits)

/-- Format a document once.  The holder gets the edits when there are any; its
faults pass through.  A pass on a busy key does nothing. -/
def formatPass (host : Host State Receipt) (options : State → Options) (key : String)
    (passes : Option (List String)) : Act State (Passed Receipt) :=
  Guard.runOr key {} do
    let state ← Act.current
    let selected := passes.getD (host.language state).defaultPasses
    let scanned := Scan.ofText (options state) selected (host.text state)
    Act.write scanned.records
    let edits ← Act.lift scanned.edits
    let receipt ← host.push edits
    Act.write [Log.passFinished key selected edits.length]
    return { edits := edits, receipt := receipt }

end Host

end Tidy
