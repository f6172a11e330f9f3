/-!
# Reading UTF-8

Bytes are cut into pieces: a piece is a character, or a flaw that covers the
longest beginning of a character that the bytes still fit.  Strict reading stops
at the first flaw; lenient reading puts a replacement character in its place.
The line breaks of a text file become line feeds.
-/

namespace Tidy.Utf8

inductive Reason where
  /-- The first byte cannot start a character. -/
  | invalidStart
  /-- A byte does not continue the character begun before it. -/
  | invalidContinuation
  /-- The bytes end inside a character. -/
  | unexpectedEnd
  deriving DecidableEq

def Reason.message : Reason → String
  | .invalidStart => "invalid start byte"
  | .invalidContinuation => "invalid continuation byte"
  | .unexpectedEnd => "unexpected end of data"

inductive Piece where
  | character (character : Char) (width : Nat)
  | flaw (reason : Reason) (first : UInt8) (width : Nat)
  deriving DecidableEq

def Piece.width : Piece → Nat
  | .character _ width => width
  | .flaw _ _ width => width

/-- A character that has begun: how many bytes are still missing, between which
bounds the next one lies, and what has been read. -/
structure Pending where
  missing : Nat
  low : Nat
  high : Nat
  value : Nat
  first : UInt8
  width : Nat
  deriving DecidableEq

def start (byte : UInt8) : Piece ⊕ Pending :=
  let code := byte.toNat
  if code < 0x80 then .inl (.character (Char.ofNat code) 1)
  else if code < 0xC2 || 0xF4 < code then .inl (.flaw .invalidStart byte 1)
  else if code < 0xE0 then .inr ⟨1, 0x80, 0xBF, code - 0xC0, byte, 1⟩
  else if code < 0xF0 then
    let low := if code == 0xE0 then 0xA0 else 0x80
    let high := if code == 0xED then 0x9F else 0xBF
    .inr ⟨2, low, high, code - 0xE0, byte, 1⟩
  else
    let low := if code == 0xF0 then 0x90 else 0x80
    let high := if code == 0xF4 then 0x8F else 0xBF
    .inr ⟨3, low, high, code - 0xF0, byte, 1⟩

namespace Pending

def accepts (pending : Pending) (byte : UInt8) : Bool :=
  pending.low ≤ byte.toNat && byte.toNat ≤ pending.high

def advance (pending : Pending) (byte : UInt8) : Piece ⊕ Pending :=
  let value := pending.value * 64 + (byte.toNat - 0x80)
  if pending.missing ≤ 1 then .inl (.character (Char.ofNat value) (pending.width + 1))
  else .inr ⟨pending.missing - 1, 0x80, 0xBF, value, pending.first, pending.width + 1⟩

def broken (pending : Pending) (reason : Reason) : Piece :=
  .flaw reason pending.first pending.width

end Pending

/-- Cut bytes into pieces, going on from a character that may have begun. -/
def pieces (pending : Option Pending) : List UInt8 → List Piece
  | [] =>
      match pending with
      | none => []
      | some begun => [begun.broken .unexpectedEnd]
  | byte :: rest =>
      let (before, state) :=
        match pending with
        | none => ([], start byte)
        | some begun =>
            if begun.accepts byte then ([], begun.advance byte)
            else ([begun.broken .invalidContinuation], start byte)
      match state with
      | .inl piece => before ++ piece :: pieces none rest
      | .inr begun => before ++ pieces (some begun) rest

/-- The first flaw of some bytes. -/
structure Flaw where
  reason : Reason
  first : UInt8
  position : Nat
  width : Nat
  deriving DecidableEq

/-- Collect the characters up to the first flaw; `position` bytes came before. -/
def collect (position : Nat) : List Piece → Except Flaw (List Char)
  | [] => .ok []
  | .character character width :: rest =>
      (collect (position + width) rest).map (character :: ·)
  | .flaw reason first width :: _ => .error ⟨reason, first, position, width⟩

def decode (bytes : List UInt8) : Except Flaw (List Char) :=
  collect 0 (pieces none bytes)

/-- The character that stands for a flaw. -/
def replacement : Char := '\ufffd'

/-- Read bytes, with a replacement character for every flaw. -/
def decodeLeniently (bytes : List UInt8) : List Char :=
  (pieces none bytes).map fun piece =>
    match piece with
    | .character character _ => character
    | .flaw _ _ _ => replacement

/-- Characters with line feeds in place of other line breaks: carriage return and
line feed together, and if `alone` is set also a carriage return that stands alone. -/
def withFeeds (alone : Bool) : List Char → List Char
  | [] => []
  | '\r' :: '\n' :: rest => '\n' :: withFeeds alone rest
  | character :: rest =>
      (if alone && character == '\r' then '\n' else character) :: withFeeds alone rest

end Tidy.Utf8
