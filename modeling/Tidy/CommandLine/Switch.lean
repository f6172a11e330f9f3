/-!
# Switches

The switches of the command line, how they are spelled and what they take.
-/

namespace Tidy.CommandLine

inductive Switch where
  | help
  | tcp
  | host
  | port
  | logLevel
  | version
  deriving DecidableEq

namespace Switch

def all : List Switch :=
  [.help, .tcp, .host, .port, .logLevel, .version]

def spellings : Switch → List String
  | .help => ["-h", "--help"]
  | .tcp => ["--tcp"]
  | .host => ["--host"]
  | .port => ["--port"]
  | .logLevel => ["--log-level"]
  | .version => ["--version"]

/-- How messages name a switch. -/
def title (switch : Switch) : String :=
  String.intercalate "/" switch.spellings

def takesValue : Switch → Bool
  | .host => true
  | .port => true
  | .logLevel => true
  | .help => false
  | .tcp => false
  | .version => false

end Switch

/-- Every spelling with its switch. -/
def spelled : List (String × Switch) :=
  Switch.all.flatMap fun switch => switch.spellings.map fun spelling => (spelling, switch)

end Tidy.CommandLine
