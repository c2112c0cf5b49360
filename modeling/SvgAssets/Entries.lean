/-
# SvgAssets.Entries -- entries in the order of their first insertion

A table from names to values that remembers the order in which the names came in. Setting a name
that is there keeps its place; a new name goes to the end.
-/
import SvgAssets.Text.Basic

namespace SvgAssets

/-- A table from names to values, in order. -/
abbrev Entries (α : Type) := List (Text × α)

namespace Entries

variable {α : Type}

/-- The value of a name: that of the first entry with this name. -/
def get? : Entries α → Text → Option α
  | [], _ => none
  | (n, a) :: rest, name => if n = name then some a else get? rest name

/-- The table with `name` set to `a`, in its old place or at the end. -/
def set (name : Text) (a : α) : Entries α → Entries α
  | [] => [(name, a)]
  | (n, b) :: rest => if n = name then (name, a) :: rest else (n, b) :: set name a rest

/-- The names, in order. -/
def names (entries : Entries α) : List Text := entries.map (·.1)

/-- The table that results from setting the given pairs one after the other. -/
def ofPairs (pairs : List (Text × α)) : Entries α :=
  pairs.foldl (fun entries (name, a) => set name a entries) []

@[simp] theorem get?_set_self (entries : Entries α) (name : Text) (a : α) :
    (entries.set name a).get? name = some a := by
  fun_induction set name a entries with
  | case1 => simp [get?]
  | case2 => simp [get?]
  | case3 n b rest h ih => simp [get?, h, ih]

theorem get?_set_of_ne (entries : Entries α) {name other : Text} (a : α) (h : other ≠ name) :
    (entries.set name a).get? other = entries.get? other := by
  fun_induction set name a entries with
  | case1 => simp [get?, h.symm]
  | case2 => simp [get?, h.symm]
  | case3 n b rest hn ih => simp [get?, ih]

/-- Setting a name appends it to the names, unless it is there already. -/
theorem names_set (entries : Entries α) (name : Text) (a : α) :
    (entries.set name a).names =
      if name ∈ entries.names then entries.names else entries.names ++ [name] := by
  fun_induction set name a entries with
  | case1 => simp [names]
  | case2 => simp [names]
  | case3 n b rest hn ih =>
    simp only [names, List.map_cons, List.mem_cons, Ne.symm hn, false_or] at ih ⊢
    rw [ih]
    split <;> simp_all

end Entries

end SvgAssets
