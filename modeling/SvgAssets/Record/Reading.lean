/-
# SvgAssets.Record.Reading -- records from tables

A record may be given as a table. A field is looked up under its own name first and then with its
words joined by underscores. Texts have to be texts. A side may also be a number, and a truth value
counts as the number one or zero. The numbers of a view box may be written as texts.
-/
import SvgAssets.Number.Reading
import SvgAssets.Record.Basic

namespace SvgAssets

/-- The fields of a record that are missing or wrong, under the names they were given. -/
structure InvalidFields where
  names : List Text
  deriving DecidableEq

namespace RecordReading

/-- A field as it was given: the name, and the value under it. -/
structure Given where
  name : Text
  value : Option Value

/-- A field of a table. -/
def given (table : Entries Value) (f : RecordField) : Given :=
  match table.get? f.key with
  | some v => ⟨f.key, some v⟩
  | none =>
    match table.get? f.joinedKey with
    | some v => ⟨f.joinedKey, some v⟩
    | none => ⟨f.key, none⟩

/-- What one field contributes: its value, or its name as that of a wrong field. -/
abbrev Checked (α : Type) := Except Text α

/-- A field that must be a text. -/
def text (g : Given) : Checked Text :=
  match g.value with
  | some (.text t) => .ok t
  | _ => .error g.name

/-- A field that may be missing and otherwise has to be read by `read`. -/
def optional {α : Type} (read : Value → Option α) (g : Given) : Checked (Option α) :=
  match g.value with
  | none | some .null => .ok none
  | some v =>
    match read v with
    | some a => .ok (some a)
    | none => .error g.name

/-- A value that is a text. -/
def asText : Value → Option Text
  | .text t => some t
  | _ => none

/-- A value that is a side. -/
def asDimension : Value → Option Dimension
  | .bool b => some (.number (.int (if b then 1 else 0)))
  | .number n => some (.number n)
  | .text t => some (.text t)
  | _ => none

/-- Digits in ASCII with single underscores between them, as the digits alone. -/
def plainDigits (s : Text) : Option Text :=
  let parts := Text.splitOn '_' s
  if s.isEmpty ∨ parts.any (fun p => p.isEmpty || !p.all Char.isDigit) then none
  else some parts.flatten

/-- A fraction of nothing but zeros does not count; the point has to be followed by a digit. -/
def withoutZeroFraction (s : Text) : Text :=
  match Text.breakAt? ['.'] s with
  | some (whole, fraction) =>
    if !fraction.isEmpty && fraction.all (· == '0') then whole else s
  | none => s

/-- The integer that a text writes. -/
def integerOfText (s : Text) : Option Int :=
  let (negative, digits) := Text.readSign (Text.trim s)
  (plainDigits (withoutZeroFraction digits)).map fun ds =>
    let n : Int := Text.decimalValue (ds.filterMap Text.digitValue?)
    if negative then -n else n

/-- The number that a text writes in ASCII: an integer where it is one. -/
def numberOfText (s : Text) : Option Number :=
  match integerOfText s with
  | some n => some (.int n)
  | none =>
    if (Text.trim s).all fun c => c.toNat < 0x80 then (Text.readBinary64 s).map .float else none

/-- A value that is a number of a view box. -/
def asNumber : Value → Option Number
  | .bool b => some (.int (if b then 1 else 0))
  | .number n => some n
  | .text t => numberOfText t
  | _ => none

/-- A number of a view box under its name; `fallback` is its value when it is not given. -/
def boxNumber (entries : Entries Value) (name : String) (fallback : Option Number) :
    Option Number :=
  match entries.get? name.toList with
  | none => fallback
  | some v => asNumber v

/-- A value that is a view box. -/
def asViewBox : Value → Option ViewBox
  | .table entries => do
    return {
      minX := ← boxNumber entries "minx" (some (.int 0))
      minY := ← boxNumber entries "miny" (some (.int 0))
      width := ← boxNumber entries "width" none
      height := ← boxNumber entries "height" none }
  | _ => none

/-- A value that is a table. -/
def asTable : Value → Option (Entries Value)
  | .table entries => some entries
  | _ => none

/-- The name of a wrong field, if the field is wrong. -/
def wrong {α : Type} : Checked α → List Text
  | .ok _ => []
  | .error name => [name]

end RecordReading

open RecordReading in
/-- The record that a table gives, or all of its wrong fields. -/
def AssetRecord.ofTable (table : Entries Value) : Except InvalidFields AssetRecord :=
  let name := text (given table .name)
  let path := text (given table .path)
  let hash := text (given table .hash)
  let svg := text (given table .svg)
  let css := optional asText (given table .css)
  let width := optional asDimension (given table .width)
  let height := optional asDimension (given table .height)
  let viewBox := optional asViewBox (given table .viewBox)
  let interface := optional asText (given table .interface)
  let defaults := optional asTable (given table .defaults)
  let result : Checked AssetRecord := do
    return {
      name := ← name, path := ← path, hash := ← hash, svg := ← svg, css := ← css,
      width := ← width, height := ← height, viewBox := ← viewBox, interface := ← interface,
      defaults := ← defaults }
  match result with
  | .ok r => .ok r
  | .error _ =>
    .error ⟨wrong name ++ wrong path ++ wrong hash ++ wrong svg ++ wrong css ++ wrong width ++
      wrong height ++ wrong viewBox ++ wrong interface ++ wrong defaults⟩

end SvgAssets
