/-
# SvgAssets.Number -- integers and binary64 numbers side by side

Geometry and variable defaults keep the two kinds of number apart: an integer is exact and of any
size, and is written without a point. Arithmetic on integers stays exact except for division,
which gives the binary64 number nearest to the exact quotient. Where an integer meets a binary64
number it is first rounded to one, and each step that has no binary64 result is an error of its
own.
-/
import SvgAssets.Number.Shortest
import SvgAssets.Number.Reading

namespace SvgAssets

/-- A number: an integer or a binary64 number. -/
inductive Number where
  | int (n : Int)
  | float (x : Binary64)
  deriving DecidableEq

/-- Why an operation on numbers has no result. -/
inductive Number.RangeError where
  /-- An integer is too large to be rounded to a binary64 number. -/
  | integerTooLarge
  /-- The quotient of two integers is too large for a binary64 number. -/
  | quotientTooLarge
  /-- An infinity has no integer below it. -/
  | floorOfInfinity
  /-- What is no number has no integer below it. -/
  | floorOfNan
  deriving DecidableEq

/-- The wording of a range error. -/
def Number.RangeError.message : Number.RangeError → String
  | .integerTooLarge => "int too large to convert to float"
  | .quotientTooLarge => "integer division result too large for a float"
  | .floorOfInfinity => "cannot convert float infinity to integer"
  | .floorOfNan => "cannot convert float NaN to integer"

namespace Number

/-- Whether the number is zero. -/
def isZero : Number → Bool
  | .int n => n == 0
  | .float x => x.isZero

/-- The number as a binary64 number. -/
def toBinary64 : Number → Except RangeError Binary64
  | .float x => .ok x
  | .int n =>
    match Binary64.ofInt n with
    | .infinity _ => .error .integerTooLarge
    | x => .ok x

/-- The product; exact for integers. -/
def mul : Number → Number → Except RangeError Number
  | .int a, .int b => .ok (.int (a * b))
  | a, b => do return .float ((← a.toBinary64).mul (← b.toBinary64))

/-- The quotient, as the nearest binary64 number. -/
def div : Number → Number → Except RangeError Binary64
  | .int a, .int b =>
    match Binary64.roundQuotient (decide (a < 0) != decide (b < 0)) a.natAbs b.natAbs with
    | .infinity _ => .error .quotientTooLarge
    | x => .ok x
  | a, b => do return (← a.toBinary64).div (← b.toBinary64)

/-- The greatest integer that is at most `x`. -/
def floor (x : Binary64) : Except RangeError Int :=
  match x, x.floor? with
  | _, some n => .ok n
  | .nan _, none => .error .floorOfNan
  | _, none => .error .floorOfInfinity

/-- Numeric equality, across the two kinds. -/
def equal : Number → Number → Bool
  | .int a, .int b => a == b
  | .int a, .float x | .float x, .int a => x.equalInt a
  | .float x, .float y => x.equal y

/-- Decimal text of an integer. -/
def intText (n : Int) : Text :=
  (if n < 0 then ['-'] else []) ++ Text.ofNat n.natAbs

/-- The text of a number: an integer has no point, a binary64 number always has one or an
exponent. -/
def text : Number → Text
  | .int n => intText n
  | .float x => x.decimalText

end Number

/-! ## Integers in texts

Integers are of any size, but one that is read from a text may not have too many digits. -/

/-- The greatest number of digits that an integer may be written with. -/
def maxIntegerDigits : Nat := 4300

/-- An integer is written with too many digits. -/
structure IntegerTooLong where
  digits : Nat
  deriving DecidableEq

/-- The wording of the limit on integers. -/
def IntegerTooLong.message (e : IntegerTooLong) : String :=
  "Exceeds the limit (" ++ toString maxIntegerDigits ++
    " digits) for integer string conversion: value has " ++ toString e.digits ++
    " digits; use sys.set_int_max_str_digits() to increase the limit"

end SvgAssets
