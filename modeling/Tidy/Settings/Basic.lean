import Tidy.Field.Declaration
import Tidy.Settings.Problem

/-!
# Settings

Settings say which formatters run on which languages and how model fields are
laid out.  They are read from a table; what the table leaves out keeps its
default.
-/

namespace Tidy

structure Settings where
  /-- The folder they hold for. -/
  root : Option Path := none
  /-- The names of the formatters of each configured language. -/
  formatters : List (Text × List String) :=
    [("typescript", [Formatter.sortImports.name]),
     ("typescriptreact", [Formatter.sortImports.name]),
     ("prisma", [Formatter.formatModelFields.name])]
  options : Options := {}
  /-- The file they were read from. -/
  source : Option Path := none
  deriving DecidableEq

namespace Settings

/-- The formatters configured for a language; none when it has no identifier. -/
def formattersFor (settings : Settings) (language : Option Text) : List String :=
  match language with
  | none => []
  | some identifier =>
      if identifier.isEmpty then [] else (settings.formatters.lookup identifier).getD []

def configures (settings : Settings) (language : Option Text) : Bool :=
  match language with
  | none => false
  | some identifier => (settings.formatters.lookup identifier).isSome

/-- The configured languages in the order of their identifiers. -/
def languages (settings : Settings) : List Text :=
  (settings.formatters.map Prod.fst).mergeSort fun left right =>
    !(right.map CodePoint.toNat).lex (left.map CodePoint.toNat) Nat.blt

/-! ## Reading a table -/

abbrev Entries := List (Text × Value)

def Entries.find? (entries : Entries) (key : String) : Option Value :=
  entries.lookup (key : Text)

def needShown {Shown : Type} (shown : Except Value.Unshowable Shown) :
    Except Problem Shown :=
  shown.mapError Problem.ofUnshowable

def formatterName? : Value → Option String
  | .text text => (Formatter.all.map Formatter.name).find? fun name => (name : Text) == text
  | _ => none

def readNames (language : Text) (value : Value) : Except Problem (List String) := do
  let names ←
    match value with
    | .text name => .ok [.text name]
    | .list names => .ok names
    | _ => .error (.namesNotList language)
  match names.find? fun name => (formatterName? name).isNone with
  | some name => .error (.unknownFormatter (← needShown name.plain) language)
  | none => .ok (names.filterMap formatterName?)

def readLanguages : Entries → Except Problem (List (Text × List String))
  | [] => .ok []
  | (language, value) :: rest => do
      let names ← readNames language value
      let others ← readLanguages rest
      return (language, names) :: others

def readFormatters (table : Entries) : Except Problem (List (Text × List String)) :=
  match (table.find? "formatters").getD .null with
  | .null => .ok ({} : Settings).formatters
  | .table entries => readLanguages entries
  | _ => .error .formattersNotTable

/-- The integer that a value stands for: truth values count as zero and one,
fractions are cut off, text is read. -/
def readIndent (value : Value) : Except Problem Int :=
  match value with
  | .bool flag => .ok (if flag then 1 else 0)
  | .integer number => .ok number
  | .double (.finite negative mantissa exponent) =>
      .ok (Double.truncate negative mantissa exponent)
  | .double (.infinite _) => .error (.escaping .infiniteNumber)
  | .text text =>
      match Text.readInteger? text with
      | some number => .ok number
      | none => do throw (.indentNotInteger (← needShown value.shown))
  | _ => do throw (.indentNotInteger (← needShown value.shown))

/-- Texts under a key: a single one or a list; nothing keeps the default. -/
def readTexts (key : String) (fallback : List Text) : Option Value → Except Problem (List Text)
  | none => .ok fallback
  | some .null => .ok fallback
  | some (.text text) => .ok [text]
  | some (.list items) =>
      items.mapM fun item => needShown item.plain
  | some _ => .error (.notStrings key)

def readFields (fields : Entries) : Except Problem Options := do
  let indent ← readIndent ((fields.find? "indent").getD (.integer Options.standard.fieldIndent))
  if indent < 0 then .error .indentNegative
  let locationPrefixes ←
    readTexts "fields.location_prefixes" Options.standard.locationPrefixes
      (fields.find? "location_prefixes")
  let widthPrefixes ←
    readTexts "fields.width_prefixes" Options.standard.widthPrefixes
      (fields.find? "width_prefixes")
  return {
    fieldIndent := indent
    locationPrefixes := locationPrefixes
    widthPrefixes := widthPrefixes }

def readOptions (table : Entries) : Except Problem Options :=
  let fields := (table.find? "fields").getD .null
  if fields.isVoid then readFields []
  else
    match fields with
    | .table entries => readFields entries
    | _ => .error .fieldsNotTable

def ofValue : Value → Except Problem Settings
  | .table entries => do
      let formatters ← readFormatters entries
      let options ← readOptions entries
      return { formatters := formatters, options := options }
  | _ => .error .notTable

end Settings

end Tidy
