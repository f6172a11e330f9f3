/-!
# Signed indices

A signed index counts from the front, or from the end when it is negative.
Cuts are clamped to the sequence; elements outside it do not exist.
-/

namespace Tidy.Index

/-- The cut that a signed index names in a sequence of the given length. -/
def cut (length : Nat) (index : Int) : Nat :=
  if index < 0 then (length + index).toNat else min index.toNat length

/-- The elements from one signed cut up to another. -/
def slice {Item : Type} (items : List Item) (start stop : Int) : List Item :=
  (items.take (cut items.length stop)).drop (cut items.length start)

/-- Whether an integer is small enough for an index or a length, for which there
are 64 bits. -/
def fits (index : Int) : Bool :=
  decide (-9223372036854775808 ≤ index) && decide (index < 9223372036854775808)

def tooLargeMessage : String :=
  "cannot fit 'int' into an index-sized integer"

inductive Miss where
  /-- The sequence is shorter. -/
  | outside
  /-- No sequence is that long. -/
  | tooLarge
  deriving DecidableEq

def Miss.message : Miss → String
  | .outside => "list index out of range"
  | .tooLarge => tooLargeMessage

def get {Item : Type} (items : List Item) (index : Int) : Except Miss Item :=
  let found :=
    if 0 ≤ index then items[index.toNat]?
    else if 0 ≤ items.length + index then items[(items.length + index).toNat]?
    else none
  match found with
  | some item => .ok item
  | none => .error (if fits index then .outside else .tooLarge)

end Tidy.Index
