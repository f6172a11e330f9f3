import Tidy.Import.Keyword
import Tidy.Import.Specifiers

/-!
# Import statements

A statement is one line or several.  Its class and the length of its specifier
list decide where it goes in a run.
-/

namespace Tidy.Import

/-- The classes of statements, in the order in which they are written. -/
inductive Group where
  | typeOnly
  | singleLineBraced
  | multiLineBraced
  | plain
  deriving DecidableEq

def Group.all : List Group :=
  [.typeOnly, .singleLineBraced, .multiLineBraced, .plain]

def Group.rank : Group → Nat
  | .typeOnly => 1
  | .singleLineBraced => 2
  | .multiLineBraced => 3
  | .plain => 4

structure Statement where
  first : Text
  rest : List Text
  deriving DecidableEq

namespace Statement

def ofLines? : List Text → Option Statement
  | [] => none
  | first :: rest => some ⟨first, rest⟩

def lines (statement : Statement) : List Text :=
  statement.first :: statement.rest

def text (statement : Statement) : Text :=
  (['\n'] : Text).intercalate statement.lines

def isMultiline (statement : Statement) : Bool :=
  !statement.rest.isEmpty

/-- The class: type-only before anything else, then braced, then the rest. -/
def group (statement : Statement) : Group :=
  let body := Import.body statement.text
  if isTypeOnly body then .typeOnly
  else if (['\x7b'] : Text).isPrefixOf body then
    if statement.isMultiline then .multiLineBraced else .singleLineBraced
  else .plain

/-- The text between `import`, or its `type` qualifier, and the first bounded
`from`; empty when there is none. -/
def specifierList (statement : Statement) : Text :=
  match beforeFrom? none (unqualified (Import.body statement.text)) with
  | none => []
  | some specifiers => specifiers.strip

def innerLines (statement : Statement) : List Text :=
  statement.rest.dropLast

/-- The inner lines as they are written: ordered when they are specifiers
between braces, else only without the blanks at their ends. -/
def tidyInner (statement : Statement) : List Text :=
  if statement.group == .multiLineBraced then Specifiers.sort statement.innerLines
  else statement.innerLines.map Text.stripRight

/-- The statement with its first and last line trimmed and its inner lines
written anew. -/
def normalized (statement : Statement) : Statement :=
  match statement.rest.getLast? with
  | none => ⟨statement.first.strip, []⟩
  | some last => ⟨statement.first.strip, statement.tidyInner ++ [last.strip]⟩

def note? (statement : Statement) : Option Log.Record :=
  if statement.isMultiline && statement.group == .multiLineBraced then
    (Specifiers.obstacle? statement.innerLines).map Specifiers.Obstacle.note
  else none

end Statement

end Tidy.Import
