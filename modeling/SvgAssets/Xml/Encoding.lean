/-
# SvgAssets.Xml.Encoding -- documents that look like UTF-16

A document is a text already, but one with a zero among its first two bytes is taken for UTF-16: its
bytes are read two by two, with the greater half first when the zero is the first byte. All other
documents are read as they are.
-/
import SvgAssets.Text.Utf8

namespace SvgAssets.Xml

/-- What a document is read as: its characters, and whether half a unit is left at its end. -/
structure Decoded where
  text : Text
  isCut : Bool

/-- The characters of UTF-16 units. A unit that is half of a pair alone is no legal character. -/
def ofUnits : List Nat → Text
  | [] => []
  | [u] => [if u.isValidChar then Char.ofNat u else '\uffff']
  | u :: v :: rest =>
    if 0xd800 ≤ u ∧ u < 0xdc00 then
      (if 0xdc00 ≤ v ∧ v < 0xe000 then
        Char.ofNat (0x10000 + (u - 0xd800) * 0x400 + (v - 0xdc00))
      else Char.ofNat 0x10000) :: ofUnits rest
    else (if u.isValidChar then Char.ofNat u else '\uffff') :: ofUnits (v :: rest)

/-- The units of bytes, and whether a byte is left. -/
def unitsOfBytes (unit : UInt8 → UInt8 → Nat) : Bytes → List Nat × Bool
  | a :: b :: rest =>
    let (units, isCut) := unitsOfBytes unit rest
    (unit a b :: units, isCut)
  | [_] => ([], true)
  | [] => ([], false)

/-- What a document is read as. -/
def decode (s : Text) : Decoded :=
  let recoded (unit : UInt8 → UInt8 → Nat) : Decoded :=
    let (units, isCut) := unitsOfBytes unit (Utf8.encode s)
    ⟨ofUnits units, isCut⟩
  match s with
  | '\x00' :: _ => recoded fun a b => a.toNat * 256 + b.toNat
  | c :: '\x00' :: _ =>
    if c.toNat < 0x80 then recoded fun a b => b.toNat * 256 + a.toNat else ⟨s, false⟩
  | _ => ⟨s, false⟩

/-- A document without a zero among its first two characters is read as it is. -/
theorem decode_eq_self {s : Text} (h₁ : s.head? ≠ some '\x00') (h₂ : s.tail.head? ≠ some '\x00') :
    decode s = ⟨s, false⟩ := by
  unfold decode
  split
  · simp at h₁
  · simp at h₂
  · rfl

end SvgAssets.Xml
