import Tidy.Host
import Tidy.Protocol
import Tidy.Settings.File

/-!
# Workspaces

A workspace is a folder with its settings and the documents that are open in the
editor.  It follows the editor's notifications, answers formatting requests, and
runs single formatters by command, pushing their edits to the editor.
-/

namespace Tidy

/-- A workspace folder, its settings, and the open documents by resource name. -/
structure Workspace where
  /-- How what the editor sends is read. -/
  protocol : Protocol
  /-- The files that can be seen. -/
  files : FileTree
  rootUri : Option String := none
  root : Path
  settings : Settings
  /-- The options in force. -/
  options : Options := settings.options
  guard : Guard := {}
  documents : List (String × Document) := []

namespace Workspace

instance : Guarded Workspace where
  guard := Workspace.guard
  withGuard := fun workspace guard => { workspace with guard := guard }

/-! ## Root and settings -/

/-- The folder that a resource name stands for: its file path, or the name as it
is when it is malformed; without a name, the current directory. -/
def folderOf (protocol : Protocol) (files : FileTree) (rootUri : Option String) : Path :=
  match rootUri with
  | none => files.directory
  | some name =>
      if name == "" then files.directory
      else Path.ofString ((protocol.filePath? name).getD name)

/-- A workspace without open documents; its settings are the given ones or the
default. -/
def create (protocol : Protocol) (files : FileTree) (rootUri : Option String)
    (settings : Option Settings) : Workspace :=
  let root := folderOf protocol files rootUri
  { protocol := protocol
    files := files
    rootUri := rootUri
    root := root
    settings := settings.getD { root := some root } }

def logger : String := "smartfmt.lsp.workspace"

def ignoredNote (diagnostic : Diagnostic) : Log.Record :=
  { level := .warning
    logger := logger
    message := "Ignoring configuration: " ++ diagnostic.format }

def loadedNote (path : Path) : Log.Record :=
  { level := .info
    logger := logger
    message := "Loaded configuration from " ++ path.toString }

def withSettings (workspace : Workspace) (settings : Settings) : Workspace :=
  { workspace with settings := settings, options := settings.options }

/-- Read the settings of the folder again.  A reported problem leaves the default
settings; any other fault passes through. -/
def reload : Act Workspace Unit := do
  let workspace ← Act.current
  let settings ←
    match Settings.load workspace.files workspace.root none with
    | .ok settings => pure settings
    | .error (.reported diagnostic) => do
        Act.write [ignoredNote diagnostic]
        pure { root := some workspace.root }
    | .error fault => Act.stop fault
  Act.replaceState (workspace.withSettings settings)
  match settings.source with
  | none => return
  | some path => Act.write [loadedNote path]

/-- Move to another folder and read its settings. -/
def setRoot (rootUri : Option String) : Act Workspace Unit := do
  let workspace ← Act.current
  Act.replaceState
    { workspace with
      rootUri := rootUri
      root := folderOf workspace.protocol workspace.files rootUri }
  reload

/-! ## Open documents -/

def document? (workspace : Workspace) (uri : String) : Option Document :=
  workspace.documents.lookup uri

def withDocument (workspace : Workspace) (document : Document) : Workspace :=
  { workspace with
    documents :=
      (document.uri, document) ::
        workspace.documents.filter fun entry => entry.1 != document.uri }

def withoutDocument (workspace : Workspace) (uri : String) : Workspace :=
  { workspace with documents := workspace.documents.filter fun entry => entry.1 != uri }

/-- The text of the file that a resource name stands for, with line feeds only.
What cannot be opened is empty; a file that is not UTF-8 and a path that holds a
NUL character are faults. -/
def fileText (protocol : Protocol) (files : FileTree) (uri : String) : Except Fault Text :=
  match protocol.filePath? uri with
  | none => .ok []
  | some path =>
      match files.read (Path.ofString path) with
      | .error .nulInPath => .error .nulInPath
      | .error _ => .ok []
      | .ok bytes =>
          match Utf8.decode bytes with
          | .error flaw => .error (.undecodable flaw)
          | .ok characters => .ok (.ofList (Utf8.withFeeds true characters))

def store (document : Document) : Act Workspace Document := do
  Act.replaceState ((← Act.current).withDocument document)
  return document

def didOpen (item : DocumentItem) : Act Workspace Document :=
  store (Document.ofItem item)

/-- The document that a change applies to: the open one, or one with the text of the
file, which is opened. -/
def documentToChange (uri : String) (version : Int) : Act Workspace Document := do
  let workspace ← Act.current
  match workspace.document? uri with
  | some document => return document
  | none => do
      let text ← Act.lift (fileText workspace.protocol workspace.files uri)
      store (Document.ofItem { uri := uri, version := version, text := text })

/-- Make one change to a document, which keeps its version. -/
def applyChange (document : Document) (change : Change) : Act Workspace Document := do
  let text ← Act.lift (document.changed change)
  store (document.update text document.version)

/-- A document was changed; one that is not open is opened from its file.  Every
change is relative to the text that the ones before it produced, which is stored; so
a fault of one leaves the changes before it made. -/
def didChange (uri : String) (version : Int) (changes : List Change) :
    Act Workspace Document := do
  let document ← documentToChange uri version
  let changed ← changes.foldlM applyChange document
  store (changed.update changed.text version)

def didClose (uri : String) : Act Workspace Unit := do
  Act.replaceState ((← Act.current).withoutDocument uri)

/-! ## Formatting -/

/-- The formatters that run on a document: the configured ones; when its language
is not configured, those of its kind. -/
def passesFor (workspace : Workspace) (document : Document) : List String :=
  let configured := workspace.settings.formattersFor document.languageId
  if !configured.isEmpty then configured
  else if workspace.settings.configures document.languageId then []
  else document.language.defaultPasses

/-- The edits that format a document; none when it is not open or busy. -/
def formatDocument (uri : String) : Act Workspace (List TextEdit) := do
  match (← Act.current).document? uri with
  | none => return []
  | some document =>
      Guard.run uri do
        let workspace ← Act.current
        let passes := workspace.passesFor document
        let scanned := Scan.ofText workspace.options passes document.text
        Act.write scanned.records
        let edits ← Act.lift scanned.edits
        Act.write [Log.passFinished uri passes edits.length]
        Act.lift (edits.mapM document.textEdit)

end Workspace

end Tidy
