import Tidy.Text.Utf8
import Tidy.Uri.Address

/-!
# Resource names

Editors name documents and folders by resource names.  The file path of one is
its path with escapes decoded; a host comes before it when the resource is a
file, and a drive letter at its front loses the slash.
-/

namespace Tidy.Uri

/-- The parts of a resource name that its file path depends on. -/
structure Parts where
  scheme : List Char
  authority : List Char
  path : List Char
  deriving DecidableEq

/-! ## Cutting a name into its parts -/

/-- Drop control characters and spaces at the front, and every tab and line
break. -/
def clean (text : List Char) : List Char :=
  (text.dropWhile fun character => decide (character.toNat ≤ 0x20)).filter fun character =>
    character != '\t' && character != '\r' && character != '\n'

def isSchemeCharacter (character : Char) : Bool :=
  character.isAlphanum || character == '+' || character == '-' || character == '.'

/-- Cut off the scheme: a letter and more scheme characters before the first
colon. -/
def cutScheme (text : List Char) : List Char × List Char :=
  let before := text.takeWhile fun character => character != ':'
  match text.dropWhile fun character => character != ':' with
  | ':' :: after =>
      if (before.head?.map Char.isAlpha).getD false && before.all isSchemeCharacter then
        (before.map Char.toLower, after)
      else ([], text)
  | _ => ([], text)

def endsAuthority (character : Char) : Bool :=
  character == '/' || character == '?' || character == '#'

def cutAuthority : List Char → List Char × List Char
  | '/' :: '/' :: rest =>
      (rest.takeWhile fun character => !endsAuthority character,
        rest.dropWhile fun character => !endsAuthority character)
  | text => ([], text)

/-- The characters whose compatibility forms hold a delimiter of authorities. -/
def disguisedDelimiters : List Nat :=
  [0x2047, 0x2048, 0x2049, 0x2100, 0x2101, 0x2105, 0x2106, 0x2A74, 0xFE13, 0xFE16,
   0xFE55, 0xFE56, 0xFE5F, 0xFE6B, 0xFF03, 0xFF0F, 0xFF1A, 0xFF1F, 0xFF20]

/-- The host and the port of an authority: what follows its last at sign. -/
def hostAndPort (authority : List Char) : List Char :=
  (authority.reverse.takeWhile fun character => character != '@').reverse

/-- Whether the host of an authority with brackets is an address.  Brackets around
it stand at its very beginning, and nothing but a port follows them. -/
def hasAddress (authority : List Char) : Bool :=
  let text := hostAndPort authority
  if text.contains '[' then
    let host := (text.drop 1).takeWhile fun character => character != ']'
    let port := text.drop (host.length + 2)
    text.head? == some '[' && (port.isEmpty || port.head? == some ':') && isBracketed host
  else isBracketed (text.takeWhile fun character => character != ':')

/-- Whether brackets in an authority come with an address, and no delimiter is
disguised. -/
def isAuthority (text : List Char) : Bool :=
  let brackets :=
    match text.contains '[', text.contains ']' with
    | false, false => true
    | true, true => hasAddress text
    | _, _ => false
  brackets && text.all fun character => !disguisedDelimiters.contains character.toNat

def dropQuery (text : List Char) : List Char :=
  (text.takeWhile fun character => character != '#').takeWhile fun character => character != '?'

/-- The schemes whose last path segment can carry parameters. -/
def parameterSchemes : List String :=
  ["", "ftp", "hdl", "prospero", "http", "imap", "https", "shttp", "rtsp",
   "rtspu", "sip", "sips", "mms", "sftp", "tel"]

/-- Cut the parameters, which follow a semicolon, off the last path segment. -/
def dropParameters (path : List Char) : List Char :=
  let segment := (path.reverse.takeWhile fun character => character != '/').reverse
  path.take (path.length - segment.length) ++
    segment.takeWhile fun character => character != ';'

/-- Cut a name into its parts; nothing when its authority is malformed. -/
def split? (name : String) : Option Parts :=
  let (scheme, rest) := cutScheme (clean name.toList)
  let (authority, rest) := cutAuthority rest
  if isAuthority authority then
    let path := dropQuery rest
    some
      { scheme := scheme
        authority := authority
        path :=
          if parameterSchemes.contains (String.ofList scheme) then dropParameters path
          else path }
  else none

/-! ## Decoding escapes -/

/-- The bytes of basic characters when a percent sign and two hexadecimal digits
stand for one byte. -/
def unescape : List Char → List UInt8
  | [] => []
  | '%' :: high :: low :: rest =>
      match Text.hexValue? high, Text.hexValue? low with
      | some first, some second => UInt8.ofNat (16 * first + second) :: unescape rest
      | _, _ => UInt8.ofNat '%'.toNat :: unescape (high :: low :: rest)
  | character :: rest => UInt8.ofNat character.toNat :: unescape rest

def isBasic (character : Char) : Bool :=
  character.toNat < 0x80

def decode (text : List Char) : List Char :=
  (text.splitBy fun left right => isBasic left == isBasic right).flatMap fun run =>
    if run.all isBasic then Utf8.decodeLeniently (unescape run) else run

/-! ## File paths -/

def Parts.filePath (parts : Parts) : List Char :=
  if !parts.authority.isEmpty && !parts.path.isEmpty && parts.scheme == "file".toList then
    ['/', '/'] ++ parts.authority ++ parts.path
  else
    match parts.path with
    | '/' :: letter :: ':' :: rest =>
        if letter.isAlpha then letter.toLower :: ':' :: rest else parts.path
    | path => path

/-- The file path of a resource name; nothing when the name is malformed. -/
def filePath? (name : String) : Option String :=
  (split? name).map fun parts =>
    String.ofList
      (Parts.filePath
        { parts with authority := decode parts.authority, path := decode parts.path })

end Tidy.Uri
