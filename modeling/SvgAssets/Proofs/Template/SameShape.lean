/-
# SvgAssets.Proofs.Template.SameShape -- types and defaults never drift apart

The types and the defaults of variables are two trees, kept by separate assignments. However they
came about, by scans and merges in any order and with any redeclarations, also where a value gave
way to a table or a table to a value, they have the same names in the same order at every level, and
a table in one faces a table in the other (`sameShape_of_derived`). What carries this through a
merge is that flattening lists the two trees in step (`SameShape.places`).
-/
import Mathlib.Data.List.Forall2
import SvgAssets.Proofs.Template.Declaring

namespace SvgAssets.Template

open Text Descriptor VariableTree

/-- A type and a default that belong together: the type tells numbers from texts. -/
inductive Matches : Value → Value → Prop
  | number (n : Number) : Matches (.text VariableType.number.name) (.number n)
  | string (t : Text) : Matches (.text VariableType.string.name) (.text t)

/-- A tree of types and a tree of defaults with the same names in the same order, where tables face
tables of the same shape, and types face defaults that belong to them. -/
inductive SameShape : VariableTree → VariableTree → Prop
  | nil : SameShape [] []
  | leaf {key : Text} {type default : Value} {types defaults : VariableTree} :
    Matches type default → SameShape types defaults →
      SameShape ((key, type) :: types) ((key, default) :: defaults)
  | table {key : Text} {typesBelow defaultsBelow types defaults : VariableTree} :
    SameShape typesBelow defaultsBelow → SameShape types defaults →
      SameShape ((key, .table typesBelow) :: types) ((key, .table defaultsBelow) :: defaults)

/-- What may stand at one place in the two trees: nothing, a type and a default that belong
together, or tables of the same shape. -/
inductive ShapeAt : Option Value → Option Value → Prop
  | none : ShapeAt none none
  | leaf {type default : Value} : Matches type default → ShapeAt (some type) (some default)
  | table {types defaults : VariableTree} :
    SameShape types defaults → ShapeAt (some (.table types)) (some (.table defaults))

theorem Matches.isLeaf {type default : Value} (h : Matches type default) :
    IsLeaf type ∧ IsLeaf default := by
  cases h <;> exact ⟨trivial, trivial⟩

/-- The type and the default of a declaration that can be taken in belong together. -/
theorem Declaration.matches_of_isSound {d : Declaration} (h : d.IsSound) :
    Matches d.typeEntry.2 d.defaultEntry.2 := by
  rw [typeEntry]
  rcases literal_cases h.literal_eq with ⟨htype, n, hn⟩ | ⟨htype, t, ht⟩
  · rw [htype, hn]
    exact .number n
  · rw [htype, ht]
    exact .string t

theorem ShapeAt.exists_type {type : Option Value} {default : Value}
    (h : ShapeAt type (some default)) : ∃ found, type = some found := by
  cases h with
  | leaf _ => exact ⟨_, rfl⟩
  | table _ => exact ⟨_, rfl⟩

namespace SameShape

variable {types defaults : VariableTree}

theorem cons {key : Text} {a b : Value} (h : ShapeAt (some a) (some b))
    (hrest : SameShape types defaults) : SameShape ((key, a) :: types) ((key, b) :: defaults) := by
  cases h with
  | leaf h => exact .leaf h hrest
  | table h => exact .table h hrest

theorem get? (h : SameShape types defaults) (key : Text) :
    ShapeAt (types.get? key) (defaults.get? key) := by
  induction h with
  | nil => exact .none
  | leaf hmatch _ ih =>
    rw [Entries.get?, Entries.get?]
    split
    · exact .leaf hmatch
    · exact ih
  | table hbelow _ _ ih =>
    rw [Entries.get?, Entries.get?]
    split
    · exact .table hbelow
    · exact ih

theorem set (h : SameShape types defaults) (key : Text) {a b : Value}
    (hvalue : ShapeAt (some a) (some b)) : SameShape (types.set key a) (defaults.set key b) := by
  induction h with
  | nil => exact cons hvalue .nil
  | leaf hmatch hrest ih =>
    rw [Entries.set, Entries.set]
    split
    · exact cons hvalue hrest
    · exact .leaf hmatch ih
  | table hbelow hrest _ ih =>
    rw [Entries.set, Entries.set]
    split
    · exact cons hvalue hrest
    · exact .table hbelow ih

/-- The entries with some of the names are in step if all are. -/
theorem filter (h : SameShape types defaults) (q : Text → Bool) :
    SameShape (types.filter fun x => q x.1) (defaults.filter fun x => q x.1) := by
  induction h with
  | nil => exact .nil
  | @leaf key _ _ _ _ hmatch _ ih =>
    cases hq : q key with
    | true => simpa [hq] using .leaf hmatch ih
    | false => simpa [hq] using ih
  | @table key _ _ _ _ hbelow _ _ ih =>
    cases hq : q key with
    | true => simpa [hq] using .table hbelow ih
    | false => simpa [hq] using ih

theorem tableOf {old old' : Option Value} (h : ShapeAt old old') :
    SameShape (tableOf old) (VariableTree.tableOf old') := by
  cases h with
  | none => exact .nil
  | leaf h =>
    rw [tableOf_of_isLeaf h.isLeaf.1, tableOf_of_isLeaf h.isLeaf.2]
    exact .nil
  | table h => exact h

/-! ## Putting in step -/

theorem putAt {type default : Value} (h : Matches type default) (keys : List Text)
    {old old' : Option Value} (hold : ShapeAt old old') :
    ShapeAt (some (putAt type keys old)) (some (VariableTree.putAt default keys old')) := by
  induction keys generalizing old old' with
  | nil => exact .leaf h
  | cons key keys ih =>
    have htable := tableOf hold
    exact .table (htable.set key (ih (htable.get? key)))

theorem put (h : SameShape types defaults) (place : List Text) {type default : Value}
    (hmatch : Matches type default) :
    SameShape (types.put (place, type)) (defaults.put (place, default)) := by
  cases place with
  | nil => exact h
  | cons key keys => exact h.set key (putAt hmatch keys (h.get? key))

/-- Types and defaults that are put in step at the same places keep the shape. -/
theorem putAll (h : SameShape types defaults) {xs ys : List (List Text × Value)}
    (hxs : List.Forall₂ (fun x y => x.1 = y.1 ∧ Matches x.2 y.2) xs ys) :
    SameShape (types.putAll xs) (defaults.putAll ys) := by
  induction hxs generalizing types defaults with
  | nil => exact h
  | @cons x y xs ys hhead _ ih =>
    obtain ⟨place, type⟩ := x
    obtain ⟨_, default⟩ := y
    obtain ⟨rfl, hmatch⟩ := hhead
    exact ih (h.put place hmatch)

/-- The values of two trees of the same shape are listed in step. -/
theorem places (h : SameShape types defaults) :
    List.Forall₂ (fun x y => x.1 = y.1 ∧ Matches x.2 y.2) (places types)
      (VariableTree.places defaults) := by
  induction h with
  | nil => exact .nil
  | leaf hmatch _ ih =>
    rw [places_leaf _ hmatch.isLeaf.1, places_leaf _ hmatch.isLeaf.2]
    exact .cons ⟨rfl, hmatch⟩ ih
  | table _ _ ihbelow ih =>
    rw [places_table, places_table]
    refine List.rel_append ?_ ih
    rw [List.forall₂_map_left_iff, List.forall₂_map_right_iff]
    exact ihbelow.imp fun x y hxy => ⟨congrArg (_ :: ·) hxy.1, hxy.2⟩

theorem lookup? (h : SameShape types defaults) (place : List Text) :
    ShapeAt (types.lookup? place) (defaults.lookup? place) := by
  induction place generalizing types defaults with
  | nil => exact .none
  | cons key keys ih =>
    by_cases hkeys : keys = []
    · rw [hkeys]
      exact h.get? key
    · rw [lookup?_cons hkeys, lookup?_cons hkeys]
      exact ih (tableOf (h.get? key))

end SameShape

/-- Trees that face each other at every name face each other at every place. -/
theorem shapeAt_lookup? {types defaults : VariableTree}
    (h : ∀ key, ShapeAt (types.get? key) (defaults.get? key)) (place : List Text) :
    ShapeAt (types.lookup? place) (defaults.lookup? place) := by
  cases place with
  | nil => exact .none
  | cons key keys =>
    by_cases hkeys : keys = []
    · rw [hkeys]
      exact h key
    · rw [lookup?_cons hkeys, lookup?_cons hkeys]
      exact (SameShape.tableOf (h key)).lookup? keys

/-! ## Scans and merges -/

/-- Variables that come about by completed scans and by merges, in any order. -/
inductive Derived : Variables → Prop
  | empty : Derived .empty
  | scan {s : Text} : (scan s).failure = none → Derived (scan s).state
  | merge {v other : Variables} : Derived v → Derived other → Derived (v.merge other).state

/-- To take in a text is to merge what a scan of it has found, or to leave the variables. -/
theorem Derived.takeIn {v : Variables} (h : Derived v) (s : Text) : Derived (v.takeIn s).state := by
  cases hs : (Template.scan s).failure with
  | none =>
    simp only [Variables.takeIn, hs]
    exact .merge h (.scan hs)
  | some e =>
    simp only [Variables.takeIn, hs]
    exact h

theorem Derived.areTidy {v : Variables} (h : Derived v) : v.AreTidy := by
  induction h with
  | empty => exact Variables.areTidy_empty
  | scan hs => exact Variables.areTidy_scan hs
  | merge _ _ hv hother =>
    rw [(Variables.merge_of_areTidy hother _).1]
    exact ⟨hv.types.putAll (isEntry_of_mem_places hother.types),
      hv.defaults.putAll (isEntry_of_mem_places hother.defaults)⟩

theorem sameShape_scan {s : Text} (h : (scan s).failure = none) :
    SameShape (scan s).state.types (scan s).state.defaults := by
  have hsound := Variables.completed_forEach_declare_iff.1 h
  rw [Variables.state_scan h, Variables.foldl_put]
  refine SameShape.putAll .nil ?_
  rw [List.forall₂_map_left_iff, List.forall₂_map_right_iff, List.forall₂_same]
  intro d hd
  exact ⟨rfl, Declaration.matches_of_isSound (hsound d hd)⟩

theorem Derived.sameShape {v : Variables} (h : Derived v) : SameShape v.types v.defaults := by
  induction h with
  | empty => exact .nil
  | scan hs => exact sameShape_scan hs
  | merge _ hother ihv ihother =>
    rw [(Variables.merge_of_areTidy hother.areTidy _).1]
    exact ihv.putAll ihother.places

/-- **Types and defaults never drift apart.** Variables that come about by any sequence of completed
scans and merges have a type where they have a default and the one belongs to the other, they have
tables at the same places, and in each table the names stand in the same order. And merging such
variables never fails. -/
theorem sameShape_of_derived {v : Variables} (h : Derived v) :
    SameShape v.types v.defaults ∧
      (∀ place, ShapeAt (v.types.lookup? place) (v.defaults.lookup? place)) ∧
      ∀ other, Derived other → (v.merge other).failure = none :=
  ⟨h.sameShape, h.sameShape.lookup?, fun _ hother =>
    (Variables.merge_of_areTidy hother.areTidy v).2⟩

/-- A text that declares `a` as a text and then as a table, and `c` as a table and then as a
number. -/
def conflictingText : Text :=
  Declaration.text ⟨"red".toList, "a".toList⟩ ++ Declaration.text ⟨"1".toList, "a.b".toList⟩ ++
    Declaration.text ⟨"x".toList, "c.d".toList⟩ ++ Declaration.text ⟨"2".toList, "c".toList⟩

theorem sameShape_of_derived_conflicting :
    Derived ((scan conflictingText).state.merge (scan conflictingText).state).state ∧
      SameShape ((scan conflictingText).state.merge (scan conflictingText).state).state.types
        ((scan conflictingText).state.merge (scan conflictingText).state).state.defaults := by
  have hscan : (scan conflictingText).failure = none := by decide +kernel
  have hderived := Derived.merge (.scan hscan) (.scan hscan)
  exact ⟨hderived, (sameShape_of_derived hderived).1⟩

end SvgAssets.Template
