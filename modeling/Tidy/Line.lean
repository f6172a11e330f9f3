import Tidy.Text.Basic

/-!
# Lines

Text is cut into lines that each know how they end.  `Line.ofFeeds` ends a line
at a line feed, with or without a carriage return before it; `Line.ofBreaks`
also ends one at a carriage return that stands alone.  In both cases the last
line has no ending, and joining the lines gives the text back.
-/

namespace Tidy

inductive Ending where
  | none
  | feed
  | returnFeed
  | carriageReturn
  deriving DecidableEq

def Ending.text : Ending → Text
  | .none => []
  | .feed => ['\n']
  | .returnFeed => ['\r', '\n']
  | .carriageReturn => ['\r']

/-- One line: its characters and how it ends. -/
structure Line where
  text : Text
  ending : Ending
  deriving DecidableEq

namespace Line

def width (line : Line) : Nat :=
  line.text.length + line.ending.text.length

def consFirst (character : CodePoint) : List Line → List Line
  | [] => [⟨[character], .none⟩]
  | line :: rest => ⟨character :: line.text, line.ending⟩ :: rest

def ofFeeds : Text → List Line
  | [] => [⟨[], .none⟩]
  | .scalar '\r' :: .scalar '\n' :: rest => ⟨[], .returnFeed⟩ :: ofFeeds rest
  | .scalar '\n' :: rest => ⟨[], .feed⟩ :: ofFeeds rest
  | character :: rest => consFirst character (ofFeeds rest)

/-- Cut after every line feed and after every carriage return that no line
feed follows. -/
def ofBreaks : Text → List Line
  | [] => [⟨[], .none⟩]
  | .scalar '\r' :: .scalar '\n' :: rest => ⟨[], .returnFeed⟩ :: ofBreaks rest
  | .scalar '\r' :: rest => ⟨[], .carriageReturn⟩ :: ofBreaks rest
  | .scalar '\n' :: rest => ⟨[], .feed⟩ :: ofBreaks rest
  | character :: rest => consFirst character (ofBreaks rest)

def join (lines : List Line) : Text :=
  lines.flatMap fun line => line.text ++ line.ending.text

/-- The offset at which each line starts, the first one at `start`. -/
def offsets (start : Nat) : List Line → List Nat
  | [] => []
  | line :: rest => start :: offsets (start + line.width) rest

end Line

end Tidy
