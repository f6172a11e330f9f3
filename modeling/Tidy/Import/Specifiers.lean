import Tidy.Log

/-!
# Specifier lines

The lines between the braces of a multi-line import are ordered by length, the
longest first.  The separating commas are taken off before and put back after:
one behind every specifier but the last, and behind that one only if the last
specifier had one.  Lines with comments or leading commas keep their order.
-/

namespace Tidy.Specifiers

def hasComment (line : Text) : Bool :=
  Text.includes ['/', '/'] line || Text.includes ['/', '*'] line

def hasLeadingComma (line : Text) : Bool :=
  ([','] : Text).isPrefixOf line.strip

/-- A line without the blanks at its end and without its separating comma. -/
def bare (line : Text) : Text :=
  let trimmed := line.stripRight
  if trimmed.endsWith ',' then Text.stripRight trimmed.dropLast else trimmed

/-- Whether the last line that holds a specifier ends with a comma. -/
def endsWithComma (lines : List Text) : Bool :=
  match (lines.filter fun line => !(bare line).isEmptyLine).getLast? with
  | none => false
  | some line => line.stripRight.endsWith ','

/-- Put commas behind the specifiers; `trailing` tells whether the last one
gets one too. -/
def attachCommas (trailing : Bool) : List Text → List Text
  | [] => []
  | line :: rest =>
      if !line.isEmptyLine && (trailing || rest.any fun later => !later.isEmptyLine) then
        (line ++ ([','] : Text)) :: attachCommas trailing rest
      else line :: attachCommas trailing rest

/-- Order texts by length, the longest first; texts of equal length keep their
order. -/
def longestFirst (texts : List Text) : List Text :=
  texts.mergeSort fun left right => decide (right.length ≤ left.length)

inductive Obstacle where
  | comment
  | leadingComma
  deriving DecidableEq

/-- What keeps these lines from being ordered, if anything. -/
def obstacle? (lines : List Text) : Option Obstacle :=
  if lines.any hasComment then some .comment
  else if lines.any hasLeadingComma then some .leadingComma
  else none

def Obstacle.note (obstacle : Obstacle) : Log.Record :=
  { level := .debug
    logger := "smartfmt.formatting.imports"
    message :=
      match obstacle with
      | .comment => "Specifier lines carry comments; keeping their order"
      | .leadingComma => "Specifier lines use leading commas; keeping their order" }

def sort (lines : List Text) : List Text :=
  match obstacle? lines with
  | some _ => lines.map Text.stripRight
  | none => attachCommas (endsWithComma lines) (longestFirst (lines.map bare))

end Tidy.Specifiers
