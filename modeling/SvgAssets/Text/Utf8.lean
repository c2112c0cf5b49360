/-
# SvgAssets.Text.Utf8 -- text as bytes

Files hold text in UTF-8. Reading goes byte by byte; between the bytes of a character it keeps what
the character may still go on with. The ranges for the second byte exclude overlong forms,
surrogates and everything beyond the last character. Reading stops at the first sequence that is no
character, and the error says where it begins and how far it was read.
-/
import SvgAssets.Text.Basic

namespace SvgAssets

/-- Bytes, as a file holds them. -/
abbrev Bytes := List UInt8

namespace Utf8

/-- What is wrong with a sequence of bytes. -/
inductive Fault where
  /-- No character begins with the byte. -/
  | invalidStart
  /-- The character that was begun does not go on with the next byte. -/
  | invalidContinuation
  /-- The bytes end within a character. -/
  | truncated
  deriving DecidableEq

/-- The wording of a fault. -/
def Fault.message : Fault → String
  | .invalidStart => "invalid start byte"
  | .invalidContinuation => "invalid continuation byte"
  | .truncated => "unexpected end of data"

/-- A sequence that is no character: its first byte, where it begins and where it ends. -/
structure DecodeError where
  byte : UInt8
  start : Nat
  stop : Nat
  fault : Fault
  deriving DecidableEq

/-- A byte in two hexadecimal digits. -/
def hexByte (b : UInt8) : String :=
  String.ofList [Nat.digitChar (b.toNat / 16), Nat.digitChar (b.toNat % 16)]

/-- The wording of an error; it names the byte when there is only one. -/
def DecodeError.message (e : DecodeError) : String :=
  "'utf-8' codec can't decode " ++
    (if e.stop = e.start + 1 then
      "byte 0x" ++ hexByte e.byte ++ " in position " ++ toString e.start
    else "bytes in position " ++ toString e.start ++ "-" ++ toString (e.stop - 1)) ++
    ": " ++ e.fault.message

/-- A range of bytes, with both of its ends. -/
structure ByteRange where
  low : UInt8
  high : UInt8

/-- Whether a range holds a byte. -/
def ByteRange.holds (r : ByteRange) (b : UInt8) : Bool := r.low ≤ b && b ≤ r.high

/-- Any byte that goes on with a character. -/
def tail : ByteRange := ⟨0x80, 0xbf⟩

/-- A character that has been begun: where, with which byte, the bits so far, and the ranges of the
bytes to come. -/
structure Pending where
  start : Nat
  byte : UInt8
  bits : Nat
  next : ByteRange
  later : List ByteRange

/-- What a byte from `0x80` on begins. -/
def begin? (position : Nat) (b : UInt8) : Option Pending :=
  let lead (bits : UInt8) (next : ByteRange) (later : List ByteRange) : Option Pending :=
    some ⟨position, b, (b - bits).toNat, next, later⟩
  if b < 0xc2 then none
  else if b < 0xe0 then lead 0xc0 tail []
  else if b = 0xe0 then lead 0xe0 ⟨0xa0, 0xbf⟩ [tail]
  else if b = 0xed then lead 0xe0 ⟨0x80, 0x9f⟩ [tail]
  else if b < 0xf0 then lead 0xe0 tail [tail]
  else if b = 0xf0 then lead 0xf0 ⟨0x90, 0xbf⟩ [tail, tail]
  else if b < 0xf4 then lead 0xf0 tail [tail, tail]
  else if b = 0xf4 then lead 0xf0 ⟨0x80, 0x8f⟩ [tail, tail]
  else none

/-- Read the bytes from `position` on. -/
def decodeFrom (position : Nat) : Option Pending → Bytes → Except DecodeError Text
  | none, [] => .ok []
  | some p, [] => .error ⟨p.byte, p.start, position, .truncated⟩
  | none, b :: rest =>
    if b < 0x80 then (Char.ofNat b.toNat :: ·) <$> decodeFrom (position + 1) none rest
    else
      match begin? position b with
      | some p => decodeFrom (position + 1) (some p) rest
      | none => .error ⟨b, position, position + 1, .invalidStart⟩
  | some p, b :: rest =>
    if p.next.holds b then
      let bits := p.bits * 64 + (b - 0x80).toNat
      match p.later with
      | [] => (Char.ofNat bits :: ·) <$> decodeFrom (position + 1) none rest
      | next :: later => decodeFrom (position + 1) (some { p with bits, next, later }) rest
    else .error ⟨p.byte, p.start, position, .invalidContinuation⟩

/-- The text that bytes hold. -/
def decode (bytes : Bytes) : Except DecodeError Text := decodeFrom 0 none bytes

/-- A text as bytes. -/
def encode (s : Text) : Bytes := s.flatMap String.utf8EncodeChar

end Utf8

end SvgAssets
