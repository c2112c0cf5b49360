/-
# SvgAssets.Template.VariableTree -- nested tables addressed by dot paths

Variables live in nested tables. A dot path names a place by its components, the non-empty parts
between the dots. Assigning to a place creates the tables on the way, keeps everything beside it,
and keeps the position of every name that is already there. An assignment that replaces a
different value, or turns a value into a table, is done all the same and reported as a
redeclaration.

Assigning a table assigns its entries one by one below the place, so that tables are merged;
the names of those entries are dot paths again.
-/
import SvgAssets.Attempt
import SvgAssets.Value

namespace SvgAssets.Template

open Text

/-- Nested variables, in order of declaration. -/
abbrev VariableTree := Entries Value

/-- A path without a non-empty component. -/
structure InvalidPath where
  path : Text
  deriving DecidableEq

/-- The wording of an invalid path. -/
def InvalidPath.message (e : InvalidPath) : String :=
  "Invalid variable path: " ++ quotedString e.path

/-- A declaration that disagrees with an earlier one. -/
inductive Redeclaration where
  /-- The value at `path` had to give way to a table. -/
  | asObject (path : Text) (previous : Value)
  /-- The value at `path` was replaced by another. -/
  | replaced (path : Text) (value previous : Value)

/-- The wording of a redeclaration. -/
def Redeclaration.message : Redeclaration → String
  | .asObject path previous =>
    "Variable " ++ quotedString path ++ " redeclared as an object (was " ++
      previous.displayString ++ ")"
  | .replaced path value previous =>
    "Variable " ++ quotedString path ++ " redeclared: " ++ value.displayString ++ " replaces " ++
      previous.displayString

/-- The components of a dot path. -/
def components (path : Text) : List Text := (splitOn '.' path).filter fun part => !part.isEmpty

namespace VariableTree

/-- Walk from `tree` down to the table that holds the last component and work on it there. `walked`
are the components behind, `key` the one ahead, and tables are created where there are none. -/
def descend {ε : Type} (work : Text → VariableTree → Attempt ε Redeclaration VariableTree)
    (walked : List Text) (key : Text) :
    List Text → VariableTree → Attempt ε Redeclaration VariableTree
  | [], node => work key node
  | next :: keys, node =>
    let walked := walked ++ [key]
    let (child, notices) : VariableTree × List Redeclaration :=
      match node.get? key with
      | some (.table child) => (child, [])
      | none | some .null => ([], [])
      | some other => ([], [.asObject (List.intercalate ['.'] walked) other])
    let below := descend work walked next keys child
    ⟨node.set key (.table below.state), notices ++ below.notices, below.failure⟩

/-- Set `key` to a value that is no table. -/
def setLeaf {ε : Type} (path : Text) (value : Value) (key : Text) (node : VariableTree) :
    Attempt ε Redeclaration VariableTree :=
  let notices :=
    match node.get? key with
    | none | some .null => []
    | some previous => if previous.agrees value then [] else [.replaced path value previous]
  ⟨node.set key value, notices, none⟩

mutual

/-- Assign `value` to the place that `path` names. -/
def assign (tree : VariableTree) (path : Text) (value : Value) :
    Attempt InvalidPath Redeclaration VariableTree :=
  match components path with
  | [] => .fail tree ⟨path⟩
  | key :: keys =>
    match value with
    | .table entries =>
      descend (fun key node =>
        let child : VariableTree :=
          match node.get? key with
          | some (.table child) => child
          | _ => []
        (assignAll child entries).onState fun child => node.set key (.table child))
        [] key keys tree
    | value => descend (setLeaf path value) [] key keys tree

/-- Assign each of the given entries, the names being paths, up to the first invalid path. -/
def assignAll (tree : VariableTree) (entries : List (Text × Value)) :
    Attempt InvalidPath Redeclaration VariableTree :=
  match entries with
  | [] => .done tree
  | (path, value) :: rest =>
    (assign tree path value).andThen fun tree => assignAll tree rest

end

/-- The path of the entry `key` below `path`. -/
def joinPath (path key : Text) : Text := if path.isEmpty then key else path ++ '.' :: key

mutual

/-- The values below `path` that are no tables, each with its path. -/
def leavesOf (path : Text) : Value → List (Text × Value)
  | .table entries => leaves path entries
  | value => [(path, value)]

/-- The values in a list of entries below `path` that are no tables, each with its path. -/
def leaves (path : Text) : List (Text × Value) → List (Text × Value)
  | [] => []
  | (key, value) :: rest => leavesOf (joinPath path key) value ++ leaves path rest

end

/-- The flat table from paths to values. -/
def flatten (tree : VariableTree) : VariableTree := Entries.ofPairs (leaves [] tree)

/-- The value at the place with these components. -/
def lookup? (tree : VariableTree) : List Text → Option Value
  | [] => none
  | [key] => tree.get? key
  | key :: next :: keys =>
    match tree.get? key with
    | some (.table child) => lookup? child (next :: keys)
    | _ => none

end VariableTree

end SvgAssets.Template
