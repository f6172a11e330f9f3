import Tidy.Workspace.Basic

/-!
# Commands

A command runs one formatter on an open document and asks the client to apply
its edits.  While the client is asked, the document stays busy; whatever the
client does meanwhile may change the workspace.
-/

namespace Tidy.Workspace

/-- A request to the client to apply edits to a document. -/
structure Application where
  uri : String
  version : Int
  edits : List TextEdit
  deriving DecidableEq

structure Verdict where
  applied : Bool
  reason : Option String := none
  deriving DecidableEq

/-- How the client handles a request: it may give a verdict, and something more
that is handed back to the caller. -/
abbrev Client (Extra : Type) := Application → Act Workspace (Option Verdict × Extra)

def application (document : Document) (edits : List Edit) : Except Fault Application := do
  return {
    uri := document.uri
    version := document.version
    edits := ← edits.mapM document.textEdit }

def rejectedNote (uri : String) (reason : Option String) : Log.Record :=
  let given := reason.getD ""
  { level := .warning
    logger := "smartfmt.lsp.host"
    message :=
      "Client rejected edits for " ++ uri ++ ": " ++
        (if given == "" then "no reason given" else given) }

def verdictNotes (uri : String) (verdict : Option Verdict) : List Log.Record :=
  match verdict with
  | some ⟨false, reason⟩ => [rejectedNote uri reason]
  | _ => []

/-- A document as the host of a formatting pass, its edits going to a client. -/
def hostOf {Extra : Type} (document : Document) (client : Client Extra) :
    Host Workspace (Application × Extra) where
  text := fun _ => document.text
  language := fun _ => document.language
  replace := fun edits => do
    let request ← Act.lift (application document edits)
    Act.lift ((← Act.current).protocol.checkEdited document.version)
    let (verdict, extra) ← client request
    Act.write (verdictNotes document.uri verdict)
    return (request, extra)

def commandFormatter? (command : String) : Option Formatter :=
  Formatter.all.find? fun formatter => formatter.name == command

def handles (formatter : Formatter) (language : Language) : Bool :=
  match formatter with
  | .sortImports => language.formatsImports
  | .formatModelFields => language.formatsModels

def unknownCommandNote (command : String) : Log.Record :=
  { level := .warning, logger := logger, message := "Unknown command " ++ command }

def unknownDocumentNote (command uri : String) : Log.Record :=
  { level := .debug
    logger := logger
    message := "Command " ++ command ++ " for unknown document " ++ uri }

def executeCommand {Extra : Type} (command uri : String) (client : Client Extra) :
    Act Workspace (Passed (Application × Extra)) := do
  match commandFormatter? command with
  | none => do
      Act.write [unknownCommandNote command]
      return {}
  | some formatter =>
      match (← Act.current).document? uri with
      | none => do
          Act.write [unknownDocumentNote command uri]
          return {}
      | some document =>
          if handles formatter document.language then
            (hostOf document client).formatPass Workspace.options uri (some [command])
          else return {}

end Tidy.Workspace
