import Tidy.Host

/-!
# An editor with several buffers

An editor holds named buffers and formats them under one guard.  When the edits
of a pass reach a buffer, the buffer first performs its hooks, which are again
requests to the editor, and then takes the edits or refuses them.

The replies of hooks are collected on pages.  Every pass opens a new page for its
buffer.  A reply goes to the page that was open when its hook started, and a pass
answers with the page that is open when it ends; so a page may grow after a pass
has referred to it, and pages are read out at the very end.
-/

namespace Tidy.Editor

inductive Request where
  /-- Format a buffer under a key with the named formatters. -/
  | pass (buffer key : String) (passes : Option (List String))
  /-- Set the text of a buffer. -/
  | set (buffer : String) (text : Text)
  | acquire (key : String)
  | release (key : String)
  | busy (key : String)

inductive Answer where
  | done
  | busy (isBusy : Bool)
  /-- The edits of a pass, the text afterwards, how often the buffer was given
  edits so far, and the number of the page with the replies of its hooks. -/
  | passed (edits : List Edit) (text : Text) (calls page : Nat)

/-- The answer to a request with the replies of hooks read out. -/
inductive Report where
  | done
  | busy (isBusy : Bool)
  /-- The edits of a pass, the text afterwards, how often the buffer was given
  edits so far, and the replies of its hooks. -/
  | passed (edits : List Edit) (text : Text) (calls : Nat) (hooks : List (Reply Report))

structure Buffer where
  text : Text := []
  language : Language := .other
  /-- The message with which edits are refused, if they are. -/
  refusal : Option String := none
  hooks : List Request := []
  /-- How often edits arrived. -/
  calls : Nat := 0
  /-- The page for the replies of its hooks. -/
  page : Nat := 0

end Editor

structure Editor where
  options : Options := {}
  guard : Guard := {}
  buffers : List (String × Editor.Buffer) := []
  pages : List (List (Reply Editor.Answer)) := []

namespace Editor

instance : Guarded Editor where
  guard := Editor.guard
  withGuard := fun editor guard => { editor with guard := guard }

/-- The buffer with a name; an empty one when there is none. -/
def buffer (editor : Editor) (name : String) : Buffer :=
  (editor.buffers.lookup name).getD {}

def onBuffer (editor : Editor) (name : String) (change : Buffer → Buffer) : Editor :=
  { editor with
    buffers :=
      editor.buffers.map fun (other, buffer) =>
        if other == name then (other, change buffer) else (other, buffer) }

def changeBuffer (name : String) (change : Buffer → Buffer) : Act Editor Unit := do
  Act.replaceState ((← Act.current).onBuffer name change)

def openPage (name : String) : Act Editor Unit := do
  let editor ← Act.current
  let page := editor.pages.length
  Act.replaceState { editor with pages := editor.pages ++ [[]] }
  changeBuffer name fun buffer => { buffer with page := page }

/-- Put a reply at the end of a page. -/
def note (page : Nat) (reply : Reply Answer) : Act Editor Unit := do
  let editor ← Act.current
  Act.replaceState
    { editor with pages := editor.pages.modify page fun replies => replies ++ [reply] }

mutual

/-- Give edits to a buffer: its hooks come first; a fault of one does not stop the
later ones. -/
def receive (fuel : Nat) (name : String) (edits : List Edit) : Act Editor Unit :=
  match fuel with
  | 0 => Act.stop (.nestingLimit .performing)
  | fuel + 1 => do
      changeBuffer name fun buffer => { buffer with calls := buffer.calls + 1 }
      let buffer := (← Act.current).buffer name
      buffer.hooks.forM fun hook => do
        let page := ((← Act.current).buffer name).page
        let reply ← ExceptT.lift (Act.reply (perform fuel hook))
        note page reply
      match buffer.refusal with
      | some message => Act.stop (.refused message)
      | none =>
          changeBuffer name fun buffer =>
            { buffer with text := Edit.applyAll edits buffer.text }

/-- Perform one request; `fuel` bounds how deeply hooks nest. -/
def perform (fuel : Nat) (request : Request) : Act Editor Answer :=
  match fuel with
  | 0 => Act.stop (.nestingLimit .performing)
  | fuel + 1 =>
      match request with
      | .pass name key passes => do
          openPage name
          let host : Host Editor Unit :=
            { text := fun editor => (editor.buffer name).text
              language := fun editor => (editor.buffer name).language
              replace := receive fuel name }
          let passed ← host.formatPass Editor.options key passes
          let after := (← Act.current).buffer name
          return .passed passed.edits after.text after.calls after.page
      | .set name text => do
          changeBuffer name fun buffer => { buffer with text := text }
          return .done
      | .acquire key => do
          Guard.acquireNow key
          return .done
      | .release key => do
          Guard.releaseNow key
          return .done
      | .busy key => do
          return .busy (← Guard.busyNow key)

end

/-! ## Reading pages out -/

/-- Read an answer out, given the pages from number `first` on. -/
def Answer.read (first : Nat) (pages : List (List (Reply Report))) : Answer → Report
  | .done => .done
  | .busy isBusy => .busy isBusy
  | .passed edits text calls page =>
      .passed edits text calls (if page < first then [] else (pages[page - first]?).getD [])

/-- Read a reply out, given the pages from number `first` on. -/
def readReply (first : Nat) (pages : List (List (Reply Report))) (reply : Reply Answer) :
    Reply Report :=
  { outcome := reply.outcome.map (Answer.read first pages), records := reply.records }

/-- Read out the pages from number `first` on.  The replies on a page refer to
later pages only, since each pass opens a page of its own. -/
def readPages (first : Nat) : List (List (Reply Answer)) → List (List (Reply Report))
  | [] => []
  | page :: rest =>
      let later := readPages (first + 1) rest
      page.map (readReply (first + 1) later) :: later

def depthLimit : Nat := 1000

/-- The replies of an editor to some requests; a fault does not stop the later
ones. -/
def run (editor : Editor) (requests : List Request) : List (Reply Report) :=
  let (replies, after) :=
    (requests.mapM fun request => Act.reply (perform depthLimit request)) { state := editor }
  replies.map (readReply 0 (readPages 0 after.state.pages))

end Editor

end Tidy
