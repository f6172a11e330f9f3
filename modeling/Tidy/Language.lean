import Tidy.Path
import Tidy.Text.Basic

/-!
# Languages and formatters

A document's language decides which formatter runs on it unless the
configuration says otherwise.
-/

namespace Tidy

inductive Formatter where
  | sortImports
  | formatModelFields
  deriving DecidableEq

namespace Formatter

def name : Formatter → String
  | .sortImports => "sortImports"
  | .formatModelFields => "formatModelFields"

def all : List Formatter :=
  [.sortImports, .formatModelFields]

end Formatter

inductive Language where
  | schema
  | script
  | scriptVariant
  | other
  deriving DecidableEq

namespace Language

/-- The identifier that editors use for a language. -/
def id : Language → String
  | .schema => "prisma"
  | .script => "typescript"
  | .scriptVariant => "typescriptreact"
  | .other => "other"

def all : List Language :=
  [.schema, .script, .scriptVariant, .other]

def ofId? (identifier : Text) : Option Language :=
  all.find? fun language => (language.id : Text) == identifier

/-- The language of a file name extension, in any case of its letters. -/
def ofExtension (extension : String) : Language :=
  match extension.toLower with
  | ".prisma" => .schema
  | ".ts" | ".mts" | ".cts" => .script
  | ".tsx" => .scriptVariant
  | _ => .other

/-- The language of a document: the editor's identifier when it names a
language that can be formatted, else the extension of the resource. -/
def detect (identifier : Option Text) (uri : String) : Language :=
  match identifier.bind ofId? with
  | some .schema => .schema
  | some .script => .script
  | some .scriptVariant => .scriptVariant
  | _ => ofExtension (Path.ofString uri).extension

def formatsModels (language : Language) : Bool :=
  language == .schema

def formatsImports (language : Language) : Bool :=
  language == .script || language == .scriptVariant

/-- The formatters that run on a language when nothing else is configured. -/
def defaultPasses (language : Language) : List String :=
  if language.formatsModels then [Formatter.formatModelFields.name]
  else if language.formatsImports then [Formatter.sortImports.name]
  else []

end Language

end Tidy
