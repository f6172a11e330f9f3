import Tidy.Workspace.Command

/-!
# The language server

The server hands the editor's notifications and requests to its workspace.  Each
formatter is also a command, which finds its document in its arguments.
-/

namespace Tidy.Server

def name : String := "smartfmt-lsp"

def version : String := "0.3.0"

def commandName (formatter : String) : String :=
  "smartfmt." ++ formatter

def commands : List String :=
  ((Formatter.all.map fun formatter => commandName formatter.name)).mergeSort
    fun left right => decide (left ≤ right)

/-- The notifications and requests that the server handles, in the order of their
names. -/
def features : List String :=
  ["initialized", "textDocument/didChange", "textDocument/didClose", "textDocument/didOpen",
   "textDocument/formatting"]

/-! ## Arguments of commands -/

inductive Argument where
  | text (content : String)
  | table (entries : List (String × Argument))
  /-- A thing with attributes. -/
  | object (attributes : List (String × Argument))
  | other

namespace Argument

def text? : Argument → Option String
  | .text content => some content
  | _ => none

def textAt? (key : String) : Argument → Option String
  | .table entries => (entries.lookup key).bind text?
  | _ => none

/-- The resource name of the document that an argument means: the argument
itself, its own entry, or the entry of its document. -/
def uri? : Argument → Option String
  | .text content => some content
  | .table entries =>
      (textAt? "uri" (.table entries)).or ((entries.lookup "textDocument").bind (textAt? "uri"))
  | .object attributes => (attributes.lookup "uri").bind text?
  | .other => none

end Argument

/-- The resource name of the document that a command is for; only the first
argument counts. -/
def documentUri? (arguments : List Argument) : Option String :=
  arguments.head?.bind Argument.uri?

/-! ## Messages -/

inductive Message where
  | initialized (rootUri : Option String)
  | didOpen (item : DocumentItem)
  | didChange (uri : String) (version : Option Int) (changes : List SentChange)
  | didClose (uri : String)
  | formatting (uri : String)
  | command (formatter : Formatter) (arguments : List Argument)

inductive Answer where
  | initialized (root : Path) (settings : Settings)
  | document (document : Option Document)
  | formatted (edits : List TextEdit)
  /-- The number of edits that a command made, nothing when it had no document,
  and the request that the client received if there was one. -/
  | executed (applied : Option Nat) (received : Option Workspace.Application)

def initializedNote (root : Path) (settings : Settings) : Log.Record :=
  { level := .info
    logger := "smartfmt.lsp.server"
    message :=
      "Formatter workspace at " ++ root.toString ++ " (languages: " ++
        List.intercalate (", " : Text) settings.languages ++ ")" }

def noUriNote (command : String) : Log.Record :=
  { level := .warning
    logger := Workspace.logger
    message := command ++ " called without a document URI" }

def failed {Result : Type} : Except Fault Result → Bool
  | .ok _ => false
  | .error _ => true

/-- The changes of a message, when its version and its changes are within bounds. -/
def acceptChanges (protocol : Protocol) (version : Option Int) (sent : List SentChange) :
    Except Fault (List Change) :=
  let changes := protocol.changes sent
  Protocol.structured "DidChangeTextDocumentParams"
    [failed (protocol.checkChanged (version.getD 0)), failed changes] (changes.toOption.getD [])

/-- The document of a message, when its version is within bounds. -/
def acceptDocument (protocol : Protocol) (item : DocumentItem) : Except Fault DocumentItem :=
  Protocol.structured "DidOpenTextDocumentParams" [failed (protocol.checkOpened item)] item

/-- Handle a message; the client answers edits with the given verdict. -/
def handle (verdict : Option Workspace.Verdict) : Message → Act Workspace Answer
  | .initialized rootUri => do
      Workspace.setRoot rootUri
      let workspace ← Act.current
      Act.write [initializedNote workspace.root workspace.settings]
      return .initialized workspace.root workspace.settings
  | .didOpen sent => do
      let item ← Act.lift (acceptDocument (← Act.current).protocol sent)
      let _ ← Workspace.didOpen item
      return .document ((← Act.current).document? item.uri)
  | .didChange uri version sent => do
      let changes ← Act.lift (acceptChanges (← Act.current).protocol version sent)
      if !changes.isEmpty then
        let _ ← Workspace.didChange uri (version.getD 0) changes
      return .document ((← Act.current).document? uri)
  | .didClose uri => do
      Workspace.didClose uri
      return .document ((← Act.current).document? uri)
  | .formatting uri => do
      return .formatted (← Workspace.formatDocument uri)
  | .command formatter arguments =>
      match documentUri? arguments with
      | none => do
          Act.write [noUriNote (commandName formatter.name)]
          return .executed none none
      | some uri => do
          let client : Workspace.Client Unit := fun _ => return (verdict, ())
          let passed ← Workspace.executeCommand formatter.name uri client
          return .executed (some passed.edits.length) (passed.receipt.map Prod.fst)

end Tidy.Server
