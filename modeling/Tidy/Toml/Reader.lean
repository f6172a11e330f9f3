import Tidy.Toml.Lexeme
import Tidy.Toml.Scalar
import Tidy.Toml.Tree

/-!
# Reading TOML

A document is read statement by statement into a tree of tables.
-/

namespace Tidy.Toml

def truthValues : List (List Char × Bool) :=
  [(['t', 'r', 'u', 'e'], true), (['f', 'a', 'l', 's', 'e'], false)]

structure Inline where
  entries : Entries := []
  marks : Marks := []

def Inline.insert (inline : Inline) (key : Key) (value : Value) : Except Reason Entries := do
  if inline.marks.has key .frozen then
    throw (.immutable key)
  onTable false (insertNew (.duplicateKey (stem key)) (stem key) value) key.dropLast
    inline.entries

def at? {Result : Type} (text : List Char) : Except Reason Result → Except Failure Result
  | .ok result => .ok result
  | .error reason => fail reason text

mutual

/-- Read a value.  An array takes two levels of the room for nesting and an inline
table three, and opening one needs two more; `fuel` bounds the number of steps. -/
def value : Nat → Nat → List Char → Except Failure (Value × List Char)
  | 0, _, text => fail .value text
  | fuel + 1, room, text =>
      match string? text with
      | some read => read.map fun (content, rest) => (.text (.ofList content), rest)
      | none =>
          match truthValues.find? fun (word, _) => word.isPrefixOf text with
          | some (word, truth) => .ok (.bool truth, text.drop word.length)
          | none =>
              match text with
              | '[' :: rest =>
                  if room < 4 then .error .nestedTooDeeply
                  else do
                    match ← skipComments rest with
                    | ']' :: after => return (.list [], after)
                    | inner => do
                        let (items, rest) ← elements fuel (room - 2) inner
                        return (.list items, rest)
              | '\x7b' :: rest =>
                  if room < 5 then .error .nestedTooDeeply
                  else
                    match skipSpaces rest with
                    | '\x7d' :: after => .ok (.table [], after)
                    | inner => do
                        let (entries, rest) ← members fuel (room - 3) {} inner
                        return (.table entries, rest)
              | _ => scalar text

def elements : Nat → Nat → List Char → Except Failure (List Value × List Char)
  | 0, _, text => fail .unclosedArray text
  | fuel + 1, room, text => do
      let (first, rest) ← value fuel room text
      match ← skipComments rest with
      | ']' :: after => return ([first], after)
      | ',' :: after => do
          match ← skipComments after with
          | ']' :: after => return ([first], after)
          | next => do
              let (others, rest) ← elements fuel room next
              return (first :: others, rest)
      | other => fail .unclosedArray other

def members : Nat → Nat → Inline → List Char → Except Failure (Entries × List Char)
  | 0, _, _, text => fail .unclosedTable text
  | fuel + 1, room, before, text => do
      let (key, rest) ← key text
      match rest with
      | '=' :: after => do
          let (read, rest) ← value fuel room (skipSpaces after)
          let entries ← at? rest (before.insert key read)
          match skipSpaces rest with
          | '\x7d' :: after => return (entries, after)
          | ',' :: after =>
              let marks :=
                if isContainer read then before.marks.add key .frozen else before.marks
              members fuel room ⟨entries, marks⟩ (skipSpaces after)
          | other => fail .unclosedTable other
      | other => fail .equalsSign other

end

def nestingRoom : Nat := 990

/-- Read an entry: a key, an equals sign and a value. -/
def entry (text : List Char) : Except Failure ((Key × Value) × List Char) := do
  let (key, rest) ← key text
  match rest with
  | '=' :: after => do
      let (read, rest) ← value (3 * text.length + 3) nestingRoom (skipSpaces after)
      return ((key, read), rest)
  | other => fail .equalsSign other

def tableArrayHeader (tree : Tree) (text : List Char) : Except Failure (Tree × List Char) := do
  let (key, rest) ← key (skipSpaces (text.drop 2))
  let tree ← at? rest (tree.declareNext key)
  match rest with
  | ']' :: ']' :: after => return (tree, after)
  | other => fail .tableArrayEnd other

def tableHeader (tree : Tree) (text : List Char) : Except Failure (Tree × List Char) := do
  let (key, rest) ← key (skipSpaces (text.drop 1))
  let tree ← at? rest (tree.declare key)
  match rest with
  | ']' :: after => return (tree, after)
  | other => fail .tableEnd other

def statement (tree : Tree) (text : List Char) : Except Failure (Tree × List Char) :=
  match text with
  | '#' :: _ => .ok (tree, text)
  | '[' :: '[' :: _ => tableArrayHeader tree.settle text
  | '[' :: _ => tableHeader tree.settle text
  | character :: _ =>
      if startsKey character then do
        let ((key, value), rest) ← entry text
        let tree ← at? rest (tree.insert key value)
        return (tree, rest)
      else fail .statement text
  | [] => .ok (tree, [])

def statements : Nat → Tree → List Char → Except Failure Tree
  | 0, tree, _ => .ok tree
  | fuel + 1, tree, text =>
      match skipSpaces text with
      | [] => .ok tree
      | '\n' :: rest => statements fuel tree rest
      | present => do
          let (tree, rest) ← statement tree present
          match ← skipComment (skipSpaces rest) with
          | [] => return tree
          | '\n' :: rest => statements fuel tree rest
          | other => fail .statementEnd other

/-- Read a document whose lines end with line feeds. -/
def parse (document : List Char) : Except Failure Value := do
  let tree ← statements (document.length + 1) {} document
  return .table tree.entries

end Tidy.Toml
