/-
# SvgAssets.Template.Scan -- the variables that a text declares

Scanning a text assigns, declaration by declaration, the type of each variable to one tree and its
default to another. A scan fails as a whole when a declaration has an invalid path or an integer
that is too long; the redeclarations met before count as reported all the same. A completed scan
may be merged into earlier ones; later declarations win.
-/
import SvgAssets.Template.Declaration
import SvgAssets.Template.Literal
import SvgAssets.Template.VariableTree

namespace SvgAssets.Template

/-- Declared variables: their types and their defaults, as two trees with the same places. -/
structure Variables where
  types : VariableTree
  defaults : VariableTree

/-- No variables. -/
def Variables.empty : Variables := ⟨[], []⟩

/-- Why a text cannot be scanned. -/
inductive ScanError where
  | invalidPath (e : InvalidPath)
  | integerTooLong (e : IntegerTooLong)
  deriving DecidableEq

/-- The wording of a scan error. -/
def ScanError.message : ScanError → String
  | .invalidPath e => e.message
  | .integerTooLong e => e.message

namespace Variables

/-- Assign a type. -/
def assignType (v : Variables) (path : Text) (value : Value) :
    Attempt ScanError Redeclaration Variables :=
  let a := v.types.assign path value
  ⟨{ v with types := a.state }, a.notices, a.failure.map .invalidPath⟩

/-- Assign a default. -/
def assignDefault (v : Variables) (path : Text) (value : Value) :
    Attempt ScanError Redeclaration Variables :=
  let a := v.defaults.assign path value
  ⟨{ v with defaults := a.state }, a.notices, a.failure.map .invalidPath⟩

/-- Take in one declaration. -/
def declare (v : Variables) (d : Declaration) : Attempt ScanError Redeclaration Variables :=
  (v.assignType d.path (.text (typeOf d.written).name)).andThen fun v =>
    match literal d.written with
    | .ok value => v.assignDefault d.path value
    | .error e => .fail v (.integerTooLong e)

/-- Take in the variables of a completed scan: first the types, then the defaults. -/
def merge (v other : Variables) : Attempt ScanError Redeclaration Variables :=
  (Attempt.forEach (fun v (path, value) => v.assignType path value) v
    other.types.flatten).andThen fun v =>
      Attempt.forEach (fun v (path, value) => v.assignDefault path value) v other.defaults.flatten

end Variables

/-- The variables that a text declares. -/
def scan (s : Text) : Attempt ScanError Redeclaration Variables :=
  Attempt.forEach Variables.declare .empty (declarations s)

/-- Scan `s` and merge its variables into `v`, which stays as it is when the scan fails. -/
def Variables.takeIn (v : Variables) (s : Text) : Attempt ScanError Redeclaration Variables :=
  let found := scan s
  match found.failure with
  | some e => ⟨v, found.notices, some e⟩
  | none =>
    let merged := v.merge found.state
    ⟨merged.state, found.notices ++ merged.notices, merged.failure⟩

end SvgAssets.Template
