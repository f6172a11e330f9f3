import Tidy.Text.Basic

/-!
# Diagnostics

What the formatter reports when it cannot do something: a category with its
code, a message, and where known a place and a hint.
-/

namespace Tidy

structure Place where
  path : Option String := none
  line : Option Int := none
  column : Option Int := none
  deriving DecidableEq

/-- The place as `path:line:column`, as far as it is known; a place without a
path cannot be described. -/
def Place.describe (place : Place) : Option String :=
  match place.path, place.line, place.column with
  | none, _, _ => none
  | some path, line, column =>
      if path == "" then none
      else
        match line, column with
        | none, _ => some path
        | some line, none => some (path ++ ":" ++ toString line)
        | some line, some column =>
            some (path ++ ":" ++ toString line ++ ":" ++ toString column)

inductive Category where
  | general
  | malformedField
  | reentrance
  | configuration
  deriving DecidableEq

def Category.code : Category → Option String
  | .general => none
  | .malformedField => some "SF001"
  | .reentrance => some "SF002"
  | .configuration => some "SF100"

structure Diagnostic where
  category : Category
  message : Text
  place : Place := {}
  code : Option String := category.code
  hint : Option String := none
  deriving DecidableEq

namespace Diagnostic

/-- A part of a report that is there and not empty. -/
def present (part : Option String) : List String :=
  match part with
  | none => []
  | some text => if text == "" then [] else [text]

/-- The report on one line: the message, then place and code in brackets, then
the hint; absent parts are left out. -/
def format (diagnostic : Diagnostic) : Text :=
  let details := present diagnostic.place.describe ++ present diagnostic.code
  let located :=
    if details.isEmpty then diagnostic.message
    else diagnostic.message ++ " (" ++ String.intercalate "; " details ++ ")"
  match present diagnostic.hint with
  | [] => located
  | hint :: _ => located ++ " Hint: " ++ hint

end Diagnostic

end Tidy
