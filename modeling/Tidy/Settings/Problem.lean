import Tidy.Fault
import Tidy.Json.Reader
import Tidy.Language
import Tidy.Path
import Tidy.Toml.Reason

/-!
# Problems with settings files

Every way in which the contents of a settings file can be wrong.  Most problems
are reported with the file as their place; a few stop the operation as they are.
-/

namespace Tidy.Settings

inductive Problem where
  /-- A fault that stops the operation as it is: bytes that are not UTF-8, integers
  that are infinite or have too many digits, contents that nest too deeply. -/
  | escaping (fault : Fault)
  | malformedJson (reason : Json.Reason) (line column : Nat)
  /-- The document is no TOML; the description tells why and where. -/
  | malformedToml (description : String)
  | notTable
  | formattersNotTable
  | namesNotList (language : Text)
  | unknownFormatter (name language : Text)
  | fieldsNotTable
  | indentNotInteger (shown : String)
  | indentNegative
  | notStrings (key : String)
  deriving DecidableEq

namespace Problem

/-- The problem that a value cannot be shown. -/
def ofUnshowable : Value.Unshowable → Problem
  | .integerTooLong => .escaping .integerTooLong
  | .nestedTooDeeply => .escaping (.nestingLimit .showing)

def message : Problem → Text
  | .escaping fault => fault.message
  | .malformedJson reason _ _ => "Invalid JSON: " ++ reason.message
  | .malformedToml description => "Invalid TOML: " ++ description
  | .notTable => "Configuration must be a table/object"
  | .formattersNotTable => "'formatters' must map language ids to formatter names"
  | .namesNotList language => "Formatters for '" ++ language ++ "' must be a list"
  | .unknownFormatter name language =>
      "Unknown formatter '" ++ name ++ "' for '" ++ language ++ "'"
  | .fieldsNotTable => "'fields' must be a table"
  | .indentNotInteger shown => "'fields.indent' must be an integer, got " ++ shown
  | .indentNegative => "'fields.indent' must not be negative"
  | .notStrings key => "'" ++ key ++ "' must be a string or a list of strings"

def place (path : Path) : Problem → Place
  | .malformedJson _ line column =>
      { path := some path.toString, line := some line, column := some column }
  | _ => { path := some path.toString }

def hint : Problem → Option String
  | .unknownFormatter _ _ =>
      some ("Expected one of: " ++ String.intercalate ", " (Formatter.all.map Formatter.name))
  | _ => none

def diagnostic (path : Path) (problem : Problem) : Diagnostic :=
  { category := .configuration
    message := problem.message
    place := problem.place path
    hint := problem.hint }

/-- How a problem in a file stops an operation. -/
def fault (path : Path) : Problem → Fault
  | .escaping fault => fault
  | problem => .reported (problem.diagnostic path)

end Problem

end Tidy.Settings
