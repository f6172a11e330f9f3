import Tidy.CommandLine.Switch
import Tidy.Text.Digit
import Tidy.Text.Quoted

/-!
# Arguments of the command line

Every argument is sorted out before any of them takes effect: a switch, with or
without a value of its own, something that looks like a switch but is none, or a
plain argument.  Long switches may be shortened as long as only one fits.
-/

namespace Tidy.CommandLine

inductive Refusal where
  | ambiguous (argument : String) (candidates : List String)
  | ignoredValue (switch : Switch) (value : String)
  | missingValue (switch : Switch)
  | invalidInteger (switch : Switch) (value : String)
  | unrecognized (arguments : List String)
  deriving DecidableEq

def Refusal.message : Refusal → String
  | .ambiguous argument candidates =>
      "ambiguous option: " ++ argument ++ " could match " ++ String.intercalate ", " candidates
  | .ignoredValue switch value =>
      "argument " ++ switch.title ++ ": ignored explicit argument " ++ Text.quoted value
  | .missingValue switch => "argument " ++ switch.title ++ ": expected one argument"
  | .invalidInteger switch value =>
      "argument " ++ switch.title ++ ": invalid int value: " ++ Text.quoted value
  | .unrecognized arguments =>
      "unrecognized arguments: " ++ String.intercalate " " arguments

/-- What follows a switch inside its own argument. -/
inductive Attached where
  | nothing
  /-- A value after the equals sign of a long switch. -/
  | value (text : List Char)
  /-- Characters after a switch of one letter, with an equals sign between or
  without. -/
  | letters (text : List Char)
  deriving DecidableEq

/-- An argument, sorted out. -/
inductive Argument where
  | switch (switch : Switch) (attached : Attached)
  | unknown (text : String)
  | plain (text : String)
  deriving DecidableEq

/-- Whether a text is a negative number: digits after a minus sign, with a point
in front of the last of them or without; a line feed may follow. -/
def isNegativeNumber (text : List Char) : Bool :=
  let isDigit (character : Char) : Bool := (Text.digitValue? character).isSome
  match text with
  | '-' :: rest =>
      let body := if rest.getLast? == some '\n' then rest.dropLast else rest
      match body.dropWhile isDigit with
      | [] => !body.isEmpty
      | '.' :: fraction => !fraction.isEmpty && fraction.all isDigit
      | _ => false
  | _ => false

/-- The name and the value of an argument, cut at its first equals sign. -/
def cutAtEquals (text : List Char) : List Char × Attached :=
  let before := text.takeWhile fun character => character != '='
  match text.dropWhile fun character => character != '=' with
  | [] => (before, .nothing)
  | _ :: after => (before, .value after)

/-- The switches that an argument can mean, each with its spelling, when it is
not spelled out. -/
def candidates (text : List Char) : List (String × Argument) :=
  match text with
  | '-' :: '-' :: _ =>
      let (beginning, attached) := cutAtEquals text
      (spelled.filter fun (spelling, _) => beginning.isPrefixOf spelling.toList).map
        fun (spelling, switch) => (spelling, .switch switch attached)
  | _ =>
      (spelled.filter fun (spelling, _) => spelling.toList == text.take 2).map
        fun (spelling, switch) => (spelling, .switch switch (.letters (text.drop 2)))

/-- Sort out an argument that starts with a dash and is not spelled out. -/
def classifyDashed (argument : String) : Except Refusal Argument :=
  let text := argument.toList
  match candidates text with
  | [(_, found)] => .ok found
  | [] =>
      if isNegativeNumber text || text.contains ' ' then .ok (.plain argument)
      else .ok (.unknown argument)
  | several => .error (.ambiguous argument (several.map Prod.fst))

def classify (argument : String) : Except Refusal Argument :=
  let text := argument.toList
  if text.head? != some '-' then .ok (.plain argument)
  else
    match spelled.lookup argument with
    | some switch => .ok (.switch switch .nothing)
    | none =>
        if text.length == 1 then .ok (.plain argument)
        else
          let (beginning, attached) := cutAtEquals text
          match attached, spelled.lookup (String.ofList beginning) with
          | .value value, some switch =>
              if beginning.length == 2 then .ok (.switch switch (.letters value))
              else .ok (.switch switch (.value value))
          | _, _ => classifyDashed argument

def classifyAll : List String → Except Refusal (List Argument)
  | [] => .ok []
  | argument :: rest =>
      if argument == "--" then .ok ((.unknown argument) :: rest.map Argument.plain)
      else do
        let first ← classify argument
        let others ← classifyAll rest
        return first :: others

end Tidy.CommandLine
