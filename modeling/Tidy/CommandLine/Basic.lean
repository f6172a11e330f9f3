import Tidy.CommandLine.Argument
import Tidy.Log
import Tidy.Server

/-!
# The command line

Reading the command line ends in the choices that start the server, or in output
and an exit code.
-/

namespace Tidy.CommandLine

/-- The choices of a command line.  A value that is a double dash leaves a choice
open. -/
structure Choices where
  tcp : Bool := false
  host : Option String := some "127.0.0.1"
  port : Option Int := some 2087
  logLevel : Option String := some "INFO"
  deriving DecidableEq

inductive Ending where
  | help
  | version
  | refused (refusal : Refusal)
  deriving DecidableEq

/-- What a switch does when it takes no value. -/
def act (choices : Choices) (switch : Switch) : Except Ending Choices :=
  match switch with
  | .help => .error .help
  | .version => .error .version
  | .tcp => .ok { choices with tcp := true }
  | .host => .ok choices
  | .port => .ok choices
  | .logLevel => .ok choices

/-- What letters after a switch of one letter lead to: they have to be further
switches of one letter. -/
def actOnLetters (choices : Choices) (switch : Switch) : List Char → Except Ending Choices
  | [] => .error (.refused (.ignoredValue switch ""))
  | letter :: rest =>
      match spelled.lookup (String.ofList ['-', letter]) with
      | none => .error (.refused (.ignoredValue switch (String.ofList (letter :: rest))))
      | some next => if rest.isEmpty then act choices next else actOnLetters choices next rest

/-- What a switch does with its value. -/
def assign (choices : Choices) (switch : Switch) (value : String) : Except Ending Choices :=
  let given := if value == "--" then none else some value
  match switch with
  | .host => .ok { choices with host := given }
  | .logLevel => .ok { choices with logLevel := given }
  | .port =>
      match given, Text.readInteger? (value : Text) with
      | none, _ => .ok { choices with port := none }
      | some _, some port => .ok { choices with port := some port }
      | some _, none => .error (.refused (.invalidInteger switch value))
  | _ => .error (.refused (.ignoredValue switch value))

/-- Let the arguments take effect one after another; what no switch takes is left
over. -/
def apply (choices : Choices) : List Argument → Except Ending (Choices × List String)
  | [] => .ok (choices, [])
  | .plain text :: rest => do
      let (final, others) ← apply choices rest
      return (final, text :: others)
  | .unknown text :: rest => do
      let (final, others) ← apply choices rest
      return (final, text :: others)
  | .switch switch (.value value) :: rest => do
      apply (← assign choices switch (String.ofList value)) rest
  | .switch switch (.letters text) :: rest => do
      apply (← actOnLetters choices switch text) rest
  | .switch switch .nothing :: rest =>
      if switch.takesValue then
        match rest with
        | .plain value :: others => do
            apply (← assign choices switch value) others
        | _ => .error (.refused (.missingValue switch))
      else do
        apply (← act choices switch) rest

def parse (arguments : List String) : Except Ending Choices :=
  match classifyAll arguments with
  | .error refusal => .error (.refused refusal)
  | .ok sorted => do
      match ← apply {} sorted with
      | (choices, []) => return choices
      | (_, others) => .error (.refused (.unrecognized others))

/-! ## Outcome -/

def usage : String :=
  "usage: smartfmt-lsp [-h] [--tcp] [--host HOST] [--port PORT]\n" ++
  "                    [--log-level LOG_LEVEL] [--version]\n"

def help : String :=
  usage ++
  "\nsmartfmt language server\n\noptions:\n" ++
  "  -h, --help            show this help message and exit\n" ++
  "  --tcp                 Listen on TCP instead of stdio\n" ++
  "  --host HOST           TCP host (with --tcp)\n" ++
  "  --port PORT           TCP port (with --tcp)\n" ++
  "  --log-level LOG_LEVEL\n" ++
  "                        Logging level written to stderr\n" ++
  "  --version             show program's version number and exit\n"

inductive Transport where
  | standard
  | tcp (host : Option String) (port : Option Int)
  deriving DecidableEq

inductive Outcome where
  | start (transport : Transport) (threshold : Int) (records : List Log.Record)
  | exit (code : Nat) (output errors : String)
  | failure (fault : Fault)
  deriving DecidableEq

def startNote (processId : String) : Log.Record :=
  { level := .info
    logger := "smartfmt.lsp.server"
    message := "Starting smartfmt LSP (pid=" ++ processId ++ ")" }

def Choices.transport (choices : Choices) : Transport :=
  if choices.tcp then .tcp choices.host choices.port else .standard

def run (processId : String) (arguments : List String) : Outcome :=
  match parse arguments with
  | .ok choices =>
      match choices.logLevel with
      | none => .failure .noThreshold
      | some level =>
          let threshold := Log.threshold level
          .start choices.transport threshold (Log.filter threshold [startNote processId])
  | .error .help => .exit 0 help ""
  | .error .version => .exit 0 (Server.name ++ " " ++ Server.version ++ "\n") ""
  | .error (.refused refusal) =>
      .exit 2 "" (usage ++ Server.name ++ ": error: " ++ refusal.message ++ "\n")

end Tidy.CommandLine
