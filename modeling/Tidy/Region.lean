import Tidy.Field.Block
import Tidy.Import.Run
import Tidy.Language
import Tidy.Source

/-!
# Regions and formatting

A document is read line by line.  The body of a model and a run of imports are
regions that a formatter lays out anew; everything else stays as it is.
-/

namespace Tidy

def modelWord : Text := ['m', 'o', 'd', 'e', 'l']

/-- Whether a line starts a model: the word `model` at its very beginning, and
then the end or a blank. -/
def isModelStart (line : Text) : Bool :=
  modelWord.isPrefixOf line &&
    match line.drop modelWord.length with
    | [] => true
    | character :: _ => Text.isBlank character

/-- The lines between the line that opens a model and the first line that
starts with a closing brace.  There is no answer when that line never comes, or
when the opening line closes its brace itself. -/
def modelBody? (opening : Text) (following : List Text) : Option (List Text) :=
  if opening.closesBrace then none
  else
    let body := following.takeWhile fun line => !((['\x7d'] : Text).isPrefixOf line)
    if body.length < following.length then some body else none

/-- What the search for regions comes upon; lines are numbered from zero. -/
inductive Finding where
  /-- The body of a model, from the given line on. -/
  | model (first : Nat) (body : List Text)
  /-- A model without a closing line. -/
  | unclosedModel (line : Nat)
  /-- A run of imports, from the given line on. -/
  | imports (first : Nat) (run : List Text)
  /-- An import that never ends. -/
  | unfinishedImport (line : Nat)
  deriving DecidableEq

namespace Finding

/-- Search lines for regions, the first of them being line `index`. -/
def search (models imports : Bool) (index : Nat) : List Text → List Finding
  | [] => []
  | line :: following =>
      if models && isModelStart line then
        match modelBody? line following with
        | none => .unclosedModel index :: search models imports (index + 1) following
        | some body =>
            .model (index + 1) body ::
              search models imports (index + 1 + body.length + 1)
                (following.drop (body.length + 1))
      else if imports && Import.isStart line then
        match Import.runLength (line :: following) with
        | 0 => .unfinishedImport index :: search models imports (index + 1) following
        | extra + 1 =>
            .imports index (line :: following.take extra) ::
              search models imports (index + extra + 1) (following.drop extra)
      else search models imports (index + 1) following
  termination_by lines => lines.length
  decreasing_by all_goals (simp only [List.length_drop, List.length_cons]; omega)

def edit? (options : Options) (source : Source) : Finding → Option Edit
  | .model first body =>
      (source.replacement first (first + body.length - 1)
        (Block.align options body)).toOption.join
  | .imports first run =>
      (source.replacement first (first + run.length - 1)
        (Import.sortLines run)).toOption.join
  | .unclosedModel _ => none
  | .unfinishedImport _ => none

def notes (options : Options) : Finding → List Log.Record
  | .model _ body => Block.notes options body
  | .imports _ run => Import.notes run
  | .unclosedModel line =>
      [{ level := .debug
         logger := "smartfmt.formatting.scanner"
         message :=
           "Model at line " ++ toString (line + 1) ++ " has no closing line; skipped" }]
  | .unfinishedImport line =>
      [{ level := .debug
         logger := "smartfmt.formatting.scanner"
         message := "Unterminated import at line " ++ toString (line + 1) ++ "; skipped" }]

def laysOutFields : Finding → Bool
  | .model _ body => !body.isEmpty
  | .imports _ _ => false
  | .unclosedModel _ => false
  | .unfinishedImport _ => false

/-- The findings up to the first one with fields to lay out, which is included. -/
def untilFields : List Finding → List Finding
  | [] => []
  | finding :: rest =>
      if finding.laysOutFields then [finding] else finding :: untilFields rest

end Finding

def findings (passes : List String) (source : Source) : List Finding :=
  Finding.search (passes.contains Formatter.formatModelFields.name)
    (passes.contains Formatter.sortImports.name) 0 source.texts

/-- The edits that format a text. -/
def scan (options : Options) (passes : List String) (text : Text) : List Edit :=
  let source := Source.ofText text
  (findings passes source).filterMap (Finding.edit? options source)

def scanNotes (options : Options) (passes : List String) (text : Text) : List Log.Record :=
  (findings passes (Source.ofText text)).flatMap (Finding.notes options)

/-- What came of scanning a text: the records written, and the edits unless a
fault stopped the scan. -/
structure Scan where
  records : List Log.Record
  edits : Except Fault (List Edit)

/-- Scan a text.  An indent that cannot be written out stops the scan at the first
fields that need it. -/
def Scan.ofText (options : Options) (passes : List String) (text : Text) : Scan :=
  let found := findings passes (Source.ofText text)
  match found.any Finding.laysOutFields, options.indentFault? with
  | true, some fault =>
      { records := (Finding.untilFields found).flatMap (Finding.notes options)
        edits := .error fault }
  | _, _ =>
      { records := scanNotes options passes text
        edits := .ok (scan options passes text) }

def format (options : Options) (passes : List String) (text : Text) : Text :=
  Edit.applyAll (scan options passes text) text

end Tidy
