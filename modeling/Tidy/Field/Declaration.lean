import Tidy.Fault
import Tidy.Field.Tags

/-!
# Field declarations

A line of a model body such as `id String @id @map("id")` is a name, a type and
tags.  A line is a declaration only if these account for all its characters
that are not blank.  The options say how such fields are laid out: their indent,
which tags are location tags, and which of those widen the location column.
-/

namespace Tidy

structure Options where
  /-- Spaces before a field; none when negative. -/
  fieldIndent : Int := 2
  /-- Beginnings of the tags that move to the location column. -/
  locationPrefixes : List Text :=
    [['@', 'm', 'a', 'p'], ['@', 'r', 'e', 'l', 'a', 't', 'i', 'o', 'n']]
  /-- Beginnings of the location tags that widen their column. -/
  widthPrefixes : List Text := [['@', 'm', 'a', 'p']]
  deriving DecidableEq

namespace Options

/-- Two spaces; `@map` and `@relation` are location tags. -/
def standard : Options := {}

def indent (options : Options) : Text :=
  List.replicate options.fieldIndent.toNat ' '

/-- The most spaces that memory is taken to hold. -/
def indentLimit : Int := 68719476736

/-- Why the spaces before a field cannot be written out, if they cannot. -/
def indentFault? (options : Options) : Option Fault :=
  if !Index.fits options.fieldIndent then some .lengthTooLarge
  else if indentLimit < options.fieldIndent then some .outOfMemory
  else none

end Options

structure Field where
  name : Text
  columnType : Text
  /-- The first location tag, or nothing. -/
  location : Text
  /-- The other tags in their order. -/
  tags : List Text
  deriving DecidableEq

namespace Field

inductive Malformed where
  /-- There are fewer than two words. -/
  | tooFewWords (line : Text)
  /-- Some characters belong neither to name and type nor to a tag. -/
  | strayText (line : Text)
  deriving DecidableEq

def Malformed.message : Malformed → String
  | .tooFewWords line =>
      "Expected a name and a type: " ++ line.quoted
  | .strayText line =>
      "Unexpected format in line: " ++ line.quoted

def Malformed.diagnostic (malformed : Malformed) : Diagnostic :=
  { category := .malformedField, message := malformed.message }

/-- Whether this is an annotation of the whole block, such as `@@index`. -/
def isAnnotation (field : Field) : Bool :=
  [Mark.tagSign].isPrefixOf field.name

/-- A declaration whose location tag is the first tag that starts with one of
the given beginnings. -/
def ofTags (locationPrefixes : List Text) (name columnType : Text) (tags : List Text) :
    Field :=
  let isLocation := Text.startsWithAny locationPrefixes
  { name := name
    columnType := columnType
    location := (tags.find? isLocation).getD []
    tags := tags.eraseP isLocation }

/-- Read one line of a model body. -/
def parse (options : Options) (line : Text) : Except Malformed Field :=
  let trimmed := line.strip
  let name := trimmed.firstWord
  let columnType := trimmed.afterWord.firstWord
  let tags := Tags.scan trimmed.afterWord.afterWord
  if columnType.isEmpty then .error (.tooFewWords trimmed)
  else if (name ++ columnType ++ tags.flatten).squash != trimmed.squash then
    .error (.strayText trimmed)
  else .ok (ofTags options.locationPrefixes name columnType tags)

end Field

end Tidy
