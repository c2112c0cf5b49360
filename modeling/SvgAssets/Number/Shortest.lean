/-
# SvgAssets.Number.Shortest -- the shortest decimal text of a binary64 number

The decimal text of a finite number has the fewest digits that read back as the same number, and
of those the digits nearest to it. On the grid of decimals with a given number of digits only
the two neighbours of the number can be nearest, so `shortestDigits` tries the grids from one
digit to seventeen and stops at the first with a neighbour inside the interval of reals that round
to the number; its ends belong to it when the mantissa is even.

`decimalText` then writes the digits positionally for numbers from `10 ^ -4` up to `10 ^ 16`, with
at least one digit on both sides of the point, and with an exponent of at least two digits
otherwise.
-/
import SvgAssets.Number.Binary64
import SvgAssets.Text.Basic

namespace SvgAssets

namespace Binary64

/-- A positive decimal `0.d₁d₂…dₙ * 10 ^ point`. -/
structure Digits where
  digits : Text
  point : Int
  deriving DecidableEq

/-- No positive number lies below the power of ten with the opposite of this exponent. -/
abbrev decimalDepth : Nat := 340

/-- The exponent `k` with `10 ^ (k - 1) ≤ num / den < 10 ^ k`, for a quotient of at least
`10 ^ -340`. -/
def decimalPoint (num den : Nat) : Int :=
  (Nat.toDigits 10 (num * 10 ^ decimalDepth / den)).length - decimalDepth

/-- The integer `c` for which `c * 10 ^ (k - n)` is nearest to `m * 2 ^ e` among those that round to
`m * 2 ^ e`, if there is one; `k` is the decimal point of the number. Lengths are measured in
quarters of `2 ^ e`, because the interval below a power of two is half as long. -/
def nearestOnGrid? (m : Nat) (e k : Int) (n : Nat) : Option Nat :=
  let unit := 10 ^ (k - n).toNat * 2 ^ (2 - e).toNat
  let scale := 10 ^ (n - k).toNat * 2 ^ (e - 2).toNat
  let value := 4 * m * scale
  let low := (if m = 2 ^ (precision - 1) ∧ -1074 < e then 4 * m - 1 else 4 * m - 2) * scale
  let high := (4 * m + 2) * scale
  let inside (c : Nat) : Bool :=
    if m % 2 = 0 then low ≤ c * unit && c * unit ≤ high else low < c * unit && c * unit < high
  let below := value / unit
  let gap := 2 * (value - below * unit)
  match inside below, inside (below + 1) with
  | false, false => none
  | true, false => some below
  | false, true => some (below + 1)
  | true, true =>
    if gap < unit then some below
    else if unit < gap then some (below + 1)
    else some (below + below % 2)

/-- The fewest digits that read back as `m * 2 ^ e`, and of those the nearest to it. `n` is the
number of digits to begin with and `tries` the number of grids left to try. -/
def shortestFrom (m : Nat) (e k : Int) (n : Nat) : Nat → Digits
  | 0 => ⟨[], k⟩
  | tries + 1 =>
    match nearestOnGrid? m e k n with
    | some c =>
      let digits := Nat.toDigits 10 c
      ⟨Text.dropEndWhile (· == '0') digits, k + (digits.length - n)⟩
    | none => shortestFrom m e k (n + 1) tries

/-- The shortest digits of the positive number `m * 2 ^ e`. -/
def shortestDigits (m : Nat) (e : Int) : Digits :=
  let (num, den) := quotient m e
  shortestFrom m e (decimalPoint num den) 1 17

/-- How a decimal is written: positionally while the point stands within these bounds. -/
structure DecimalStyle where
  positionalAbove : Int
  positionalUpTo : Int
  exponentWidth : Nat

/-- Numbers from `10 ^ -4` up to `10 ^ 16` are written positionally, and exponents have at least two
digits. -/
def decimalStyle : DecimalStyle := ⟨-4, 16, 2⟩

/-- The text of a positive decimal. -/
def Digits.text (style : DecimalStyle) (d : Digits) : Text :=
  let count := d.digits.length
  if style.positionalAbove < d.point ∧ d.point ≤ style.positionalUpTo then
    if d.point ≤ 0 then '0' :: '.' :: List.replicate (-d.point).toNat '0' ++ d.digits
    else if count ≤ d.point.toNat then
      d.digits ++ List.replicate (d.point.toNat - count) '0' ++ ['.', '0']
    else d.digits.take d.point.toNat ++ '.' :: d.digits.drop d.point.toNat
  else
    let exponent := d.point - 1
    let magnitude := Nat.toDigits 10 exponent.natAbs
    let fraction := d.digits.drop 1
    d.digits.take 1 ++ (if fraction.isEmpty then [] else '.' :: fraction) ++
      'e' :: (if exponent < 0 then '-' else '+') ::
        (List.replicate (style.exponentWidth - magnitude.length) '0' ++ magnitude)

/-- The decimal text of a binary64 number. -/
def decimalText : Binary64 → Text
  | .nan _ => ['n', 'a', 'n']
  | .infinity negative => (if negative then ['-'] else []) ++ ['i', 'n', 'f']
  | .finite negative m e _ =>
    (if negative then ['-'] else []) ++
      (if m = 0 then ['0', '.', '0'] else (shortestDigits m e).text decimalStyle)

end Binary64

end SvgAssets
