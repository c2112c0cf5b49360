/-
# SvgAssets.Number.Reading -- reading decimal numerals

`Numeral` is a decimal numeral as written: a sign, digits on both sides of a point, an exponent.
Its digits may be of any script. `Numeral.toBinary64` is the one rounding of the exact decimal
value. `readBinary64` accepts, around such a numeral, white space at both ends and single
underscores between digits, and also the names of the infinities and of `nan`.
-/
import SvgAssets.Number.Binary64
import SvgAssets.Text.Digit
import SvgAssets.Text.Pattern

namespace SvgAssets

/-- A decimal numeral `± whole . fraction e exponent`, with the values of its digits. -/
structure Numeral where
  negative : Bool
  whole : List Nat
  fraction : List Nat
  exponent : Int

namespace Numeral

/-- The exact value of a numeral is `digits * 10 ^ scale`. -/
def scale (n : Numeral) : Int := n.exponent - n.fraction.length

/-- The binary64 number nearest to the value of a numeral. Values beyond the range of the format
are settled by the place of the first digit, so that no power of ten of unbounded size arises. -/
def toBinary64 (n : Numeral) : Binary64 :=
  let digits := (n.whole ++ n.fraction).dropWhile (· == 0)
  let value := Text.decimalValue digits
  let point : Int := digits.length + n.scale
  if value = 0 then Binary64.zero n.negative
  else if 400 < point then .infinity n.negative
  else if point < -400 then Binary64.zero n.negative
  else if 0 ≤ n.scale then Binary64.roundQuotient n.negative (value * 10 ^ n.scale.toNat) 1
  else Binary64.roundQuotient n.negative value (10 ^ (-n.scale).toNat)

end Numeral

namespace Text

/-- A run of decimal digits at the start of `s`, as their values, and the text behind it. -/
def readDigits : Text → List Nat × Text
  | [] => ([], [])
  | c :: s =>
    match digitValue? c with
    | some d => let (ds, rest) := readDigits s; (d :: ds, rest)
    | none => ([], c :: s)

/-- A sign at the start of `s`, and the text behind it. No sign counts as plus. -/
def readSign : Text → Bool × Text
  | '-' :: s => (true, s)
  | '+' :: s => (false, s)
  | s => (false, s)

/-- An exponent part `e`, sign, digits at the start of `s`; nothing is read when it is not
complete. -/
def readExponent (s : Text) : Int × Text :=
  match s with
  | c :: t =>
    if c == 'e' || c == 'E' then
      let (negative, t) := readSign t
      match readDigits t with
      | ([], _) => (0, s)
      | (ds, rest) => (if negative then -(decimalValue ds : Int) else decimalValue ds, rest)
    else (0, s)
  | [] => (0, [])

/-- A numeral without exponent at the start of `s`: digits with or without a point, or a point
and digits. -/
def readMantissa (s : Text) : Option (Numeral × Text) :=
  let (negative, s) := readSign s
  match readDigits s with
  | ([], '.' :: t) =>
    match readDigits t with
    | ([], _) => none
    | (ds, rest) => some (⟨negative, [], ds, 0⟩, rest)
  | ([], _) => none
  | (whole, '.' :: t) => let (ds, rest) := readDigits t; some (⟨negative, whole, ds, 0⟩, rest)
  | (whole, rest) => some (⟨negative, whole, [], 0⟩, rest)

/-- A numeral at the start of `s`. -/
def readNumeral (s : Text) : Option (Numeral × Text) :=
  (readMantissa s).map fun (n, t) =>
    let (exponent, rest) := readExponent t
    ({ n with exponent }, rest)

/-- `s` without its underscores, if each of them stands between two decimal digits. `afterDigit`
tells whether a digit stands in front of `s`. -/
def dropUnderscores (afterDigit : Bool) : Text → Option Text
  | [] => some []
  | '_' :: s =>
    match s with
    | d :: _ => if afterDigit && isDecimal d then dropUnderscores false s else none
    | [] => none
  | c :: s => (dropUnderscores (isDecimal c) s).map (c :: ·)

/-- The names of the numbers that no numeral writes, in small letters. -/
def numberNames : List (Text × (Bool → Binary64)) :=
  [("inf".toList, .infinity), ("infinity".toList, .infinity), ("nan".toList, fun _ => .nan)]

/-- The binary64 number that a text denotes. -/
def readBinary64 (s : Text) : Option Binary64 :=
  match dropUnderscores false (trim s) with
  | none => none
  | some t =>
    match readNumeral t with
    | some (n, []) => some n.toBinary64
    | some (_, _ :: _) => none
    | none =>
      let (negative, name) := readSign t
      (numberNames.lookup (name.map Char.toLower)).map (· negative)

end Text

end SvgAssets
