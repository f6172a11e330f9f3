import Tidy.Text.Digit

/-!
# Addresses in brackets

A host in brackets is an address of eight groups of sixteen bits, or one of a
future version.
-/

namespace Tidy.Uri

/-- Whether a text is a decimal number below 256 without leading zeros. -/
def isOctet (text : List Char) : Bool :=
  !text.isEmpty && text.length ≤ 3 && text.all Char.isDigit &&
    (text == ['0'] || text.head? != some '0') &&
    Text.ofDigits (text.map fun digit => digit.toNat - '0'.toNat) ≤ 255

def isDotted (text : List Char) : Bool :=
  let octets := text.splitOn '.'
  octets.length == 4 && octets.all isOctet

def isGroup (text : List Char) : Bool :=
  !text.isEmpty && text.length ≤ 4 && text.all fun digit => (Text.hexValue? digit).isSome

/-- How many groups of sixteen bits a text stands for when its groups are
separated by colons; the last one may be four octets if `dotted` is set. -/
def groupCount? (dotted : Bool) (text : List Char) : Option Nat :=
  if text.isEmpty then some 0
  else
    let groups := text.splitOn ':'
    let last := groups.getLast?.getD []
    if groups.all isGroup then some groups.length
    else if dotted && isDotted last && groups.dropLast.all isGroup then some (groups.length + 1)
    else none

/-- Cut at the first double colon. -/
def cutAtGap? : List Char → Option (List Char × List Char)
  | [] => none
  | ':' :: ':' :: rest => some ([], rest)
  | character :: rest =>
      (cutAtGap? rest).map fun (before, after) => (character :: before, after)

/-- Whether a text is eight groups, a double colon standing for one or more
groups of zeros. -/
def isGroups (text : List Char) : Bool :=
  match cutAtGap? text with
  | none => groupCount? true text == some 8
  | some (before, after) =>
      match groupCount? false before, groupCount? true after with
      | some high, some low => high + low ≤ 7
      | _, _ => false

def isAddress (text : List Char) : Bool :=
  match text.splitOn '%' with
  | [address] => isGroups address
  | [address, zone] => isGroups address && !zone.isEmpty
  | _ => false

/-- Whether a text is an address of a future version: a letter, a hexadecimal
version, a dot and something more. -/
def isFutureAddress : List Char → Bool
  | 'v' :: rest =>
      let version := rest.takeWhile fun digit => (Text.hexValue? digit).isSome
      let body := rest.dropWhile fun digit => (Text.hexValue? digit).isSome
      !version.isEmpty && body.head? == some '.' && 2 ≤ body.length
  | _ => false

def isBracketed (text : List Char) : Bool :=
  if text.head? == some 'v' then isFutureAddress text else isAddress text

end Tidy.Uri
