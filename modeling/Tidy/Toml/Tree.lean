import Tidy.Toml.Reason
import Tidy.Value.Basic

/-!
# The tree of tables

Statements fill a tree of tables.  Marks remember which keys were declared and
which hold values that may no longer change.
-/

namespace Tidy.Toml

inductive Status where
  /-- Declared by a header or a dotted key. -/
  | declared
  /-- Holds a written-out array or table, which is closed with all it contains. -/
  | frozen
  deriving DecidableEq

abbrev Marks := List (Key × Status)

namespace Marks

/-- Whether a key is marked; what is frozen is frozen below, too. -/
def has (marks : Marks) (key : Key) (status : Status) : Bool :=
  marks.any fun (marked, present) =>
    present == status && (marked == key || (status == .frozen && marked.isPrefixOf key))

def add (marks : Marks) (key : Key) (status : Status) : Marks :=
  (key, status) :: marks

def clear (marks : Marks) (key : Key) : Marks :=
  marks.filter fun (marked, _) => !key.isPrefixOf marked

end Marks

abbrev Entries := List (Text × Value)

/-- Change the table behind a key, making the tables on the way that are not
there yet.  In the main tree the last table of an array of tables stands for the
array. -/
def onTable (throughLists : Bool) (change : Entries → Except Reason Entries) :
    Key → Entries → Except Reason Entries
  | [], table => change table
  | part :: rest, table =>
      match table.lookup part with
      | none => do
          let inner ← onTable throughLists change rest []
          return table ++ [(part, .table inner)]
      | some (.table inner) => do
          let inner ← onTable throughLists change rest inner
          return Value.setEntry part (.table inner) table
      | some (.list items) =>
          match throughLists, items.getLast? with
          | true, some (.table inner) => do
              let inner ← onTable throughLists change rest inner
              return Value.setEntry part (.list (items.dropLast ++ [.table inner])) table
          | _, _ => .error .overwritten
      | some _ => .error .overwritten

/-- Add an entry; an existing one is not replaced. -/
def insertNew (reason : Reason) (part : Text) (value : Value) (table : Entries) :
    Except Reason Entries :=
  if (table.lookup part).isSome then .error reason else .ok (table ++ [(part, value)])

def appendTable (part : Text) (table : Entries) : Except Reason Entries :=
  match table.lookup part with
  | none => .ok (table ++ [(part, .list [.table []])])
  | some (.list items) => .ok (Value.setEntry part (.list (items ++ [.table []])) table)
  | some _ => .error .overwritten

def stem (key : Key) : Text :=
  key.getLast?.getD []

def isContainer : Value → Bool
  | .list _ => true
  | .table _ => true
  | _ => false

structure Tree where
  entries : Entries := []
  marks : Marks := []
  /-- Keys that count as declared from the next header on. -/
  pending : List Key := []
  /-- The header that the next entries belong to. -/
  header : Key := []

namespace Tree

/-- Let the pending keys count as declared. -/
def settle (tree : Tree) : Tree :=
  { tree with
    marks := tree.pending.foldl (fun marks key => marks.add key .declared) tree.marks
    pending := [] }

/-- Open a table by its header. -/
def declare (tree : Tree) (key : Key) : Except Reason Tree := do
  if tree.marks.has key .declared || tree.marks.has key .frozen then
    throw (.declaredTwice key)
  let entries ← onTable true .ok key tree.entries
  return { tree with entries := entries, marks := tree.marks.add key .declared, header := key }

/-- Open a new table of an array of tables by its header. -/
def declareNext (tree : Tree) (key : Key) : Except Reason Tree := do
  if tree.marks.has key .frozen then
    throw (.immutable key)
  let entries ← onTable true (appendTable (stem key)) key.dropLast tree.entries
  return {
    tree with
    entries := entries
    marks := (tree.marks.clear key).add key .declared
    header := key }

/-- The keys of the tables that a dotted key passes through. -/
def passedTables (header key : Key) : List Key :=
  (List.range (key.length - 1)).map fun index => header ++ key.take (index + 1)

/-- Add an entry below the current header. -/
def insert (tree : Tree) (key : Key) (value : Value) : Except Reason Tree := do
  let passed := passedTables tree.header key
  match passed.find? fun table => tree.marks.has table .declared with
  | some table => throw (.redefined table)
  | none => pure ()
  let parent := tree.header ++ key.dropLast
  if !parent.isEmpty && tree.marks.has parent .frozen then
    throw (.immutable parent)
  let entries ← onTable true (insertNew .overwritten (stem key) value) parent tree.entries
  return {
    tree with
    entries := entries
    marks :=
      if isContainer value then tree.marks.add (tree.header ++ key) .frozen else tree.marks
    pending := tree.pending ++ passed }

end Tree

end Tidy.Toml
