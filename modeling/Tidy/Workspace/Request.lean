import Tidy.Workspace.Command

/-!
# Requests to a workspace

Everything that can be asked of a workspace, as data.  A command brings its
client along, whose handling of edits is again a list of requests; so commands
nest as the requests do.
-/

namespace Tidy.Workspace

inductive Request where
  | setRoot (uri : Option String)
  | reload
  /-- Ask for folder, settings and options. -/
  | describe
  /-- Put a file or directory into the file tree. -/
  | write (path : Path) (node : Node)
  /-- Take a file out of the file tree. -/
  | remove (path : Path)
  | open (item : DocumentItem)
  | change (uri : String) (version : Int) (changes : List SentChange)
  | close (uri : String)
  | document (uri : String)
  | passes (uri : String)
  | format (uri : String)
  /-- Run a command.  Its client performs requests, then breaks off with a
  message or gives a verdict. -/
  | command (command uri : String) (nested : List Request) (failure : Option String)
      (verdict : Option Verdict)
  | acquire (key : String)
  | release (key : String)
  | busy (key : String)

inductive Answer where
  | done
  | moved (rootUri : Option String) (root : Path) (settings : Settings)
  | reloaded (settings : Settings)
  | described (rootUri : Option String) (root : Path) (settings : Settings) (options : Options)
  | document (document : Option Document)
  | passes (passes : List String)
  | formatted (edits : List TextEdit)
  /-- The edits of a command, the request that the client received if there was
  one, and the replies to the client's own requests. -/
  | executed (edits : List Edit) (received : Option Application)
      (nested : List (Reply Answer))
  | busy (isBusy : Bool)

def changeFiles (change : FileTree → Except Fault FileTree) : Act Workspace Unit := do
  let workspace ← Act.current
  let files ← Act.lift (change workspace.files)
  Act.replaceState { workspace with files := files }

/-- A client that performs something, then breaks off or gives its verdict. -/
def clientOf {Extra : Type} (nested : StateM (Logged Workspace) Extra)
    (failure : Option String) (verdict : Option Verdict) : Client Extra :=
  fun _ => do
    let extra ← ExceptT.lift nested
    match failure with
    | some message => Act.stop (.refused message)
    | none => return (verdict, extra)

mutual

def Request.perform : Request → Act Workspace Answer
  | .setRoot uri => do
      setRoot uri
      let workspace ← Act.current
      return .moved workspace.rootUri workspace.root workspace.settings
  | .reload => do
      reload
      return .reloaded (← Act.current).settings
  | .describe => do
      let workspace ← Act.current
      return .described workspace.rootUri workspace.root workspace.settings workspace.options
  | .write path node => do
      changeFiles fun files => files.insert path node
      return .done
  | .remove path => do
      changeFiles fun files => files.erase path
      return .done
  | .open item => do
      Act.lift ((← Act.current).protocol.checkOpened item)
      return .document (some (← didOpen item))
  | .change uri version sent => do
      let changes ← Act.lift ((← Act.current).protocol.changes sent)
      return .document (some (← didChange uri version changes))
  | .close uri => do
      didClose uri
      return .done
  | .document uri => do
      return .document ((← Act.current).document? uri)
  | .passes uri => do
      let workspace ← Act.current
      match workspace.document? uri with
      | none => Act.stop .noDocument
      | some document => return .passes (workspace.passesFor document)
  | .format uri => do
      return .formatted (← formatDocument uri)
  | .command command uri nested failure verdict => do
      let passed ← executeCommand command uri (clientOf (performAll nested) failure verdict)
      return .executed passed.edits (passed.receipt.map Prod.fst)
        ((passed.receipt.map Prod.snd).getD [])
  | .acquire key => do
      Guard.acquireNow key
      return .done
  | .release key => do
      Guard.releaseNow key
      return .done
  | .busy key => do
      return .busy (← Guard.busyNow key)

/-- Perform requests one after another; a fault does not stop the later ones. -/
def performAll : List Request → StateM (Logged Workspace) (List (Reply Answer))
  | [] => fun logged => ([], logged)
  | request :: rest => fun before =>
      let (first, middle) := Act.reply request.perform before
      let (others, after) := performAll rest middle
      (first :: others, after)

end

end Tidy.Workspace
