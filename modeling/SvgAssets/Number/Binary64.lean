/-
# SvgAssets.Number.Binary64 -- exact binary64 numbers

Lengths and variable defaults that are no integers are binary64 numbers. Here such a number is
what it stands for: a sign, a mantissa and a power of two, in the one canonical form that the
format has for it, or an infinity, or a NaN, which is no number. Every operation is exact
integer arithmetic followed by one rounding, `roundQuotient`: to the nearest number, and to the
even mantissa when two are equally near. A result too large for the format becomes an infinity.

A NaN is equal to nothing, not even to itself, and yet it can be told whether two NaNs are the same
object. So each of them carries the number of its object, which no operation looks at. NaNs that
come from arithmetic or from a text have the number 0; none of them gets into a list that is
compared.
-/

namespace SvgAssets

-- Within the library, powers of natural numbers are those of `Nat` itself, whatever other instances
-- are about.
attribute [scoped instance (2000)] instPowNat

/-- The number of bits of a full mantissa. -/
abbrev Binary64.precision : Nat := 53

/-- Mantissa `m` and exponent `e` in canonical form: at most 53 bits, and fewer than 53 only at the
least exponent. -/
def Binary64.Canonical (m : Nat) (e : Int) : Prop :=
  m < 2 ^ precision ∧ -1074 ≤ e ∧ e ≤ 971 ∧ (2 ^ (precision - 1) ≤ m ∨ e = -1074)

instance (m : Nat) (e : Int) : Decidable (Binary64.Canonical m e) :=
  inferInstanceAs (Decidable (_ ∧ _))

/-- A binary64 number. `finite negative m e _` is `m * 2 ^ e`, negated if `negative`; a NaN has the
number of its object. -/
inductive Binary64 where
  | nan (object : Nat := 0)
  | infinity (negative : Bool)
  | finite (negative : Bool) (mantissa : Nat) (exponent : Int)
      (canonical : Binary64.Canonical mantissa exponent)
  deriving DecidableEq

namespace Binary64

/-- The zero of either sign. -/
def zero (negative : Bool) : Binary64 := .finite negative 0 (-1074) (by decide)

/-- `n / d` rounded to the nearest integer, a half to the even neighbour. -/
def roundHalfEven (n d : Nat) : Nat :=
  let q := n / d
  let r := n % d
  if 2 * r < d then q else if d < 2 * r then q + 1 else q + q % 2

/-- The number `m * 2 ^ e` for a mantissa of at most 53 bits or equal to `2 ^ 53`; an infinity if
`e` is out of range. -/
def ofMantissa (negative : Bool) (m : Nat) (e : Int) : Binary64 :=
  let (m, e) := if m = 2 ^ precision then (2 ^ (precision - 1), e + 1) else (m, e)
  if h : Canonical m e then .finite negative m e h else .infinity negative

/-- The exponent at which the quotient `num / den` has a mantissa of 53 bits, or the least exponent
if that is greater. -/
def quotientExponent (num den : Nat) : Int :=
  let e : Int := num.log2 - den.log2 - precision
  let full := if 0 ≤ e then num / (den * 2 ^ e.toNat) else num * 2 ^ (-e).toNat / den
  max (-1074) (if full < 2 ^ precision then e else e + 1)

/-- The binary64 number nearest to `num / den`, negated if `negative`; of two equally near numbers
the one with the even mantissa. -/
def roundQuotient (negative : Bool) (num den : Nat) : Binary64 :=
  if num = 0 then zero negative
  else
    let e := quotientExponent num den
    let m :=
      if 0 ≤ e then roundHalfEven num (den * 2 ^ e.toNat)
      else roundHalfEven (num * 2 ^ (-e).toNat) den
    ofMantissa negative m e

/-- The binary64 number nearest to an integer, an infinity if the integer is too large. -/
def ofInt (n : Int) : Binary64 := roundQuotient (n < 0) n.natAbs 1

/-- The magnitude of `m * 2 ^ e` as a quotient of two integers. -/
def quotient (m : Nat) (e : Int) : Nat × Nat :=
  if 0 ≤ e then (m * 2 ^ e.toNat, 1) else (m, 2 ^ (-e).toNat)

/-- Whether the number is zero, of either sign. -/
def isZero : Binary64 → Bool
  | .finite _ m _ _ => m == 0
  | _ => false

/-- The greatest integer that is at most the number, for a finite number. -/
def floor? : Binary64 → Option Int
  | .finite negative m e _ =>
    let (num, den) := quotient m e
    some (Int.fdiv (if negative then -num else num) den)
  | _ => none

/-- The integer that the number is equal to, if there is one. -/
def toInt? : Binary64 → Option Int
  | .finite negative m e _ =>
    let (num, den) := quotient m e
    if num % den = 0 then some (if negative then -(num / den : Nat) else (num / den : Nat))
    else none
  | _ => none

/-- The product, rounded. -/
def mul : Binary64 → Binary64 → Binary64
  | .nan _, _ | _, .nan _ => .nan
  | .infinity a, .infinity b => .infinity (a != b)
  | .infinity a, .finite b m _ _ | .finite b m _ _, .infinity a =>
    if m = 0 then .nan else .infinity (a != b)
  | .finite a m e _, .finite b n f _ =>
    let (num, den) := quotient (m * n) (e + f)
    roundQuotient (a != b) num den

/-- The quotient, rounded. A zero divisor has an infinite quotient. -/
def div : Binary64 → Binary64 → Binary64
  | .nan _, _ | _, .nan _ => .nan
  | .infinity _, .infinity _ => .nan
  | .infinity a, .finite b _ _ _ => .infinity (a != b)
  | .finite a _ _ _, .infinity b => zero (a != b)
  | .finite a m e _, .finite b n f _ =>
    if n = 0 then if m = 0 then .nan else .infinity (a != b)
    else
      let (num, den) := quotient m e
      let (num', den') := quotient n f
      roundQuotient (a != b) (num * den') (den * num')

/-- Numeric equality: both zeros are equal, and `nan` is equal to nothing. -/
def equal : Binary64 → Binary64 → Bool
  | .nan _, _ | _, .nan _ => false
  | x, y => (x.isZero && y.isZero) || x == y

/-- Whether the number is equal to the integer `n`. -/
def equalInt (x : Binary64) (n : Int) : Bool := x.toInt? == some n

end Binary64

end SvgAssets
