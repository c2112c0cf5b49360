/-
# SvgAssets.Template.Literal -- the defaults of variables

A default that is a decimal numeral, but for white space around it, is a number; every other
default is the text as written. A numeral without point and exponent is an integer, all others are
binary64 numbers. Integers are limited to a number of digits.
-/
import SvgAssets.Value

namespace SvgAssets.Template

open Text

/-- The type of a variable. -/
inductive VariableType where
  | number
  | string
  deriving DecidableEq

/-- The name of a type. -/
def VariableType.name : VariableType → Text
  | .number => ['n', 'u', 'm', 'b', 'e', 'r']
  | .string => ['s', 't', 'r', 'i', 'n', 'g']

/-- The numeral that a default consists of, if it is one. -/
def numeral? (written : Text) : Option Numeral :=
  match readNumeral (trim written) with
  | some (n, []) => some n
  | _ => none

/-- The type that a default gives its variable. -/
def typeOf (written : Text) : VariableType :=
  if (numeral? written).isSome then .number else .string

/-- Whether a numeral is written as an integer, with neither point nor exponent. -/
def isIntegerText (written : Text) : Bool :=
  !written.any fun c => c == '.' || c == 'e' || c == 'E'

/-- The value of a default. -/
def literal (written : Text) : Except IntegerTooLong Value :=
  match numeral? written with
  | none => .ok (.text written)
  | some n =>
    if isIntegerText written then
      if maxIntegerDigits < n.whole.length then .error ⟨n.whole.length⟩
      else
        let magnitude : Int := decimalValue n.whole
        .ok (.int (if n.negative then -magnitude else magnitude))
    else .ok (.number (.float n.toBinary64))

end SvgAssets.Template
