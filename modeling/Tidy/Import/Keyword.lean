import Tidy.Text.Basic

/-!
# The words of an import statement

Where an import statement starts, whether it is type-only, and where its
`from` clause begins.
-/

namespace Tidy.Import

def importWord : Text := ['i', 'm', 'p', 'o', 'r', 't']

def typeWord : Text := ['t', 'y', 'p', 'e']

def fromWord : Text := ['f', 'r', 'o', 'm']

/-- Whether a character opens a module name. -/
def isQuote (character : CodePoint) : Bool :=
  character == '"' || character == '\'' || character == '\x60'

def opensSpecifiers (character : CodePoint) : Bool :=
  character == '\x7b' || character == '*'

/-- Whether a line starts an import statement: after optional blanks the word
`import`, and then the end, a blank, a specifier list or a module name. -/
def isStart (line : Text) : Bool :=
  let trimmed := line.stripLeft
  importWord.isPrefixOf trimmed &&
    match trimmed.drop importWord.length with
    | [] => true
    | character :: _ =>
        Text.isBlank character || opensSpecifiers character || isQuote character

/-- Whether a statement that starts on this line goes on past it. -/
def opensLines (line : Text) : Bool :=
  isStart line && line.leavesBraceOpen

/-- The text after the word `import` and the blanks behind it. -/
def body (statement : Text) : Text :=
  Text.stripLeft (statement.stripLeft.drop importWord.length)

def isTypeOnly (body : Text) : Bool :=
  typeWord.isPrefixOf body &&
    match body.drop typeWord.length with
    | [] => false
    | character :: _ => Text.isBlank character || opensSpecifiers character

def unqualified (body : Text) : Text :=
  if isTypeOnly body then Text.stripLeft (body.drop typeWord.length) else body

/-- Whether the word `from` may follow this character. -/
def boundsLeft : Option CodePoint → Bool
  | none => false
  | some character => Text.isBlank character || character == '\x7d'

/-- Whether the word `from` may precede this character, or the end. -/
def boundsRight : Option CodePoint → Bool
  | none => true
  | some character => Text.isBlank character || isQuote character

/-- Whether a bounded `from` stands at the head of the text, after the given
character. -/
def startsFrom (before : Option CodePoint) (text : Text) : Bool :=
  fromWord.isPrefixOf text && boundsLeft before &&
    boundsRight (text.drop fromWord.length).head?

/-- The text up to the first bounded `from`, if there is one; `before` is the
character in front of the text. -/
def beforeFrom? (before : Option CodePoint) : Text → Option Text
  | [] => none
  | character :: rest =>
      if startsFrom before (character :: rest) then some []
      else (beforeFrom? (some character) rest).map (character :: ·)

end Tidy.Import
