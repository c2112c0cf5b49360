/-
# SvgAssets.Geometry.Inference -- the geometry that a root tag asks for

Two literal lengths are taken as they are. A single literal length and a view box give the other
length by the aspect ratio of the view box, rounded down to an integer. A view box alone gives
either the full size of the surroundings or no lengths at all, as configured. Nothing else has a
geometry.

Numbers are kept apart by kind: a numeral whose value is an integer counts as that integer, however
it is written. Numerals beyond the range of binary64 numbers are errors, and so are derived lengths
beyond it.
-/
import SvgAssets.Geometry.Basic
import SvgAssets.Markup.Attribute
import SvgAssets.Markup.Tag

namespace SvgAssets.Geometry

open Text Markup

/-- Why a geometry cannot be computed. -/
inductive LengthError where
  /-- The numeral is beyond the range of binary64 numbers. -/
  | notFinite (numeral : Text)
  | outOfRange (e : Number.RangeError)
  deriving DecidableEq

/-- The wording of a length error. -/
def LengthError.message : LengthError → String
  | .notFinite numeral => "Not a finite number: " ++ String.ofList numeral
  | .outOfRange e => e.message

/-- A finite binary64 number as a length: an integer if it is equal to one. -/
def finiteNumber? : Binary64 → Option Number
  | .nan _ | .infinity _ => none
  | x =>
    match x.toInt? with
    | some n => some (.int n)
    | none => some (.float x)

/-- The numeral of a literal length as written, and its value: a numeral without exponent, in
pixels or without unit. -/
def lengthNumeral? (s : Text) : Option (Text × Numeral) :=
  let s := trimStart s
  match readMantissa s with
  | none => none
  | some (n, rest) =>
    let unit := trimStart rest
    let behind := (after? ['p', 'x'] unit).getD unit
    if (trimStart behind).isEmpty then some (s.take (s.length - rest.length), n) else none

/-- The literal length that an attribute value gives, if it gives one. -/
def parseLength (value : Text) : Except LengthError (Option Number) :=
  if value.contains '%' then .ok none
  else
    match lengthNumeral? value with
    | none => .ok none
    | some (written, n) =>
      match finiteNumber? n.toBinary64 with
      | some number => .ok (some number)
      | none => .error (.notFinite written)

/-- White space and commas separate the numbers of a view box. -/
def isSeparator (c : Char) : Bool := isBlank c || c == ','

/-- The maximal runs of characters that are no separators. -/
def fields (s : Text) : List Text :=
  (splitOn ',' (s.map fun c => if isSeparator c then ',' else c)).filter fun f => !f.isEmpty

/-- The view box that an attribute value gives: exactly four finite numbers. -/
def parseViewBox (value : Text) : Option ViewBox :=
  match (fields value).mapM fun f => (readBinary64 f).bind finiteNumber? with
  | some [minX, minY, width, height] => some ⟨minX, minY, width, height⟩
  | _ => none

/-- The three geometry attributes of a root tag as they are written, the view box already read. -/
structure RootAttributes where
  width : Option Text
  height : Option Text
  viewBox : Option ViewBox
  deriving DecidableEq

/-- The geometry attributes of a root tag. -/
def rootAttributes (tag : Text) : RootAttributes where
  width := Attribute.value? ['w', 'i', 'd', 't', 'h'] tag
  height := Attribute.value? ['h', 'e', 'i', 'g', 'h', 't'] tag
  viewBox := (Attribute.value? ['v', 'i', 'e', 'w', 'B', 'o', 'x'] tag).bind parseViewBox

/-- The length `side * b / a`, rounded down. -/
def derivedSide (side b a : Number) : Except LengthError Number :=
  let quotient : Except Number.RangeError Int := do
    Number.floor (← (← side.mul b).div a)
  match quotient with
  | .ok n => .ok (.int n)
  | .error e => .error (.outOfRange e)

/-- A length attribute that is missing gives no length. -/
def parseOptionalLength : Option Text → Except LengthError (Option Number)
  | none => .ok none
  | some value => parseLength value

/-- The full size of the surroundings. -/
def fullSize : Dimension := .text ['1', '0', '0', '%']

/-- The geometry that root attributes give, if they give one. -/
def ofRootAttributes (root : RootAttributes) (percentFallback : Bool) :
    Except LengthError (Option Geometry) := do
  let width ← parseOptionalLength root.width
  let height ← parseOptionalLength root.height
  match width, height, root.viewBox.filter ViewBox.isUsable with
  | some w, some h, _ => return some ⟨some (.number w), some (.number h), root.viewBox⟩
  | _, _, none => return none
  | some w, none, some box =>
    return some ⟨some (.number w), some (.number (← derivedSide w box.height box.width)), some box⟩
  | none, some h, some box =>
    return some ⟨some (.number (← derivedSide h box.width box.height)), some (.number h), some box⟩
  | none, none, some box =>
    return some (if percentFallback then ⟨some fullSize, some fullSize, some box⟩
      else ⟨none, none, some box⟩)

/-- The geometry of a document, inferred from its root tag. -/
def infer (s : Text) (percentFallback : Bool) : Except LengthError (Option Geometry) :=
  match rootTag? s with
  | none => .ok none
  | some tag => ofRootAttributes (rootAttributes tag) percentFallback

end SvgAssets.Geometry
