import Tidy.CommandLine.Basic

/-!
# The program

Reads the command line, prints what it leads to, and announces the start of the
server.  Carrying messages to and from the editor is left to the surrounding
transport.
-/

namespace Tidy.Main

def recordLine (record : Log.Record) : String :=
  record.level.name ++ " " ++ record.logger ++ ": " ++ record.message.printed

/-- The number of the running process, as far as the system tells it. -/
def processId : IO String := do
  try
    let status ← IO.FS.readFile "/proc/self/stat"
    return String.ofList (status.toList.takeWhile Char.isDigit)
  catch _ => return "0"

end Tidy.Main

def main (arguments : List String) : IO UInt32 := do
  match Tidy.CommandLine.run (← Tidy.Main.processId) arguments with
  | .start _ _ records => do
      for record in records do
        IO.eprintln (Tidy.Main.recordLine record)
      return 0
  | .exit code output errors => do
      IO.print output
      IO.eprint errors
      return code.toUInt32
  | .failure fault => do
      IO.eprintln fault.message.printed
      return 1
