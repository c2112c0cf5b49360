/-
# SvgAssets.Value -- dynamic values

What a variable may default to and what a generated module holds: null, truth values, numbers,
texts, lists and tables in insertion order. `Value.agrees` is the equality under which a repeated
declaration counts as consistent; it compares numbers by value, so that `1` and `1.0` agree. A NaN
agrees with nothing; but among the items of lists and tables an object counts as equal to itself, so
that a list agrees with itself whatever it holds. All other objects are equal to themselves anyway,
so nothing but a NaN has to be told from another one like it.

`Value.display` is how diagnostics show a value.
-/
import SvgAssets.Number
import SvgAssets.Entries
import SvgAssets.Text.Quoted

namespace SvgAssets

/-- A dynamic value. -/
inductive Value where
  | null
  | bool (b : Bool)
  | number (n : Number)
  | text (t : Text)
  | list (items : List Value)
  | table (entries : List (Text × Value))
  deriving Inhabited

namespace Value

/-- The integer `n` as a value. -/
def int (n : Int) : Value := .number (.int n)

/-- The number that a value counts as in a comparison; a truth value counts as one or zero. -/
def asNumber? : Value → Option Number
  | .bool b => some (.int (if b then 1 else 0))
  | .number n => some n
  | _ => none

/-- Whether both values are NaNs, and the same object. -/
def isSameNan : Value → Value → Bool
  | .number (.float (.nan i)), .number (.float (.nan j)) => i == j
  | _, _ => false

mutual

/-- Equality of values: numbers by value, lists item by item, tables without regard to order. -/
def agrees : Value → Value → Bool
  | .null, .null => true
  | .text s, .text t => s == t
  | .list xs, .list ys => agreesList xs ys
  | .table xs, .table ys => xs.length == ys.length && agreesEntries xs ys
  | .bool b, y => (y.asNumber?.map (Number.equal (.int (if b then 1 else 0)))).getD false
  | .number n, y => (y.asNumber?.map (Number.equal n)).getD false
  | _, _ => false

/-- Whether two lists have the same length and their items are the same or agree. -/
def agreesList : List Value → List Value → Bool
  | [], [] => true
  | x :: xs, y :: ys => (isSameNan x y || agrees x y) && agreesList xs ys
  | _, _ => false

/-- Whether each entry of the first table has one of the same name in the second, with the same
value or one that agrees. -/
def agreesEntries : List (Text × Value) → List (Text × Value) → Bool
  | [], _ => true
  | (name, x) :: rest, ys =>
    (match Entries.get? ys name with
      | some y => isSameNan x y || agrees x y
      | none => false) && agreesEntries rest ys

end

mutual

/-- A value as diagnostics show it. -/
def display : Value → Text
  | .null => ['N', 'o', 'n', 'e']
  | .bool true => ['T', 'r', 'u', 'e']
  | .bool false => ['F', 'a', 'l', 's', 'e']
  | .number n => n.text
  | .text t => Text.quoted t
  | .list items => '[' :: displayList items ++ [']']
  | .table entries => '\x7b' :: displayEntries entries ++ ['\x7d']

/-- The items of a list, separated by commas. -/
def displayList : List Value → Text
  | [] => []
  | [x] => display x
  | x :: rest => display x ++ [',', ' '] ++ displayList rest

/-- The entries of a table, separated by commas. -/
def displayEntries : List (Text × Value) → Text
  | [] => []
  | [(name, x)] => Text.quoted name ++ [':', ' '] ++ display x
  | (name, x) :: rest =>
    Text.quoted name ++ [':', ' '] ++ display x ++ [',', ' '] ++ displayEntries rest

end

/-- A value as part of a diagnostic. -/
def displayString (v : Value) : String := String.ofList v.display

/-- A value where a text is wanted: a text stands for itself. -/
def plain : Value → Text
  | .text t => t
  | v => v.display

end Value

end SvgAssets
