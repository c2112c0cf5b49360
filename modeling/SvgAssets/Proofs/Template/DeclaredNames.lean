/-
# SvgAssets.Proofs.Template.DeclaredNames -- what declared variables may be called

The name of a variable comes from between braces, so there is no brace in it, and its type is one of
two words. This holds of the types that a text declares, at any depth, and of all that is merged
later (`takeIn_areBraceFree`).
-/
import SvgAssets.Proofs.Entries
import SvgAssets.Proofs.Template.DescriptorReading
import SvgAssets.Proofs.Template.Normalization
import SvgAssets.Proofs.Text.Splitting
import SvgAssets.Template.Scan

namespace SvgAssets.Template

open Text

namespace Descriptor

/-- No brace occurs in the text. -/
def HasNoBrace (s : Text) : Prop := ∀ c ∈ s, c ≠ '\x7b' ∧ c ≠ '\x7d'

/-! ## Tables without braces -/

theorem areBraceFree_iff {entries : List (Text × Value)} :
    AreBraceFree entries ↔ ∀ x ∈ entries, HasNoBrace x.1 ∧ IsBraceFree x.2 := by
  induction entries with
  | nil => simp [AreBraceFree]
  | cons x rest ih =>
    rw [AreBraceFree, ih, List.forall_mem_cons, and_assoc]
    rfl

theorem AreBraceFree.filter {entries : Entries Value} (h : AreBraceFree entries)
    (q : Text × Value → Bool) : AreBraceFree (entries.filter q) := by
  rw [areBraceFree_iff] at h ⊢
  intro x hx
  exact h x (List.mem_filter.1 hx).1

theorem AreBraceFree.set {entries : Entries Value} (h : AreBraceFree entries) {name : Text}
    (hname : HasNoBrace name) {value : Value} (hvalue : IsBraceFree value) :
    AreBraceFree (entries.set name value) := by
  rw [areBraceFree_iff] at h ⊢
  intro x hx
  rcases Entries.mem_of_mem_set hx with rfl | hx
  · exact ⟨hname, hvalue⟩
  · exact h x hx

theorem AreBraceFree.get? {entries : Entries Value} (h : AreBraceFree entries) {name : Text}
    {value : Value} (hget : entries.get? name = some value) : IsBraceFree value := by
  induction entries with
  | nil => cases hget
  | cons x rest ih =>
    obtain ⟨n, v⟩ := x
    rw [Entries.get?] at hget
    split at hget
    · cases hget
      exact h.2.1
    · exact ih h.2.2 hget

/-! ## Paths -/

theorem hasNoBrace_of_mem_components {path : Text} (h : HasNoBrace path) :
    ∀ key ∈ components path, HasNoBrace key := by
  intro key hkey c hc
  exact h c (mem_of_mem_splitOn (List.mem_filter.1 hkey).1 hc)

/-! ## Assigning -/

/-- What stands at the last component, and is not a table. -/
def IsLeaf : Value → Prop
  | .table _ => False
  | _ => True

/-- To prove something of every tree, go through its entries: beside those that follow, a value that
is no table needs nothing, and of a table the same is known. -/
@[elab_as_elim]
theorem treeInduction {motive : VariableTree → Prop} (nil : motive [])
    (leaf : ∀ key value rest, IsLeaf value → motive rest → motive ((key, value) :: rest))
    (table : ∀ key entries rest, motive entries → motive rest →
      motive ((key, .table entries) :: rest)) : ∀ tree, motive tree
  | [] => nil
  | (key, .table entries) :: rest =>
    table key entries rest (treeInduction nil leaf table entries)
      (treeInduction nil leaf table rest)
  | (key, .null) :: rest => leaf key .null rest trivial (treeInduction nil leaf table rest)
  | (key, .bool b) :: rest => leaf key (.bool b) rest trivial (treeInduction nil leaf table rest)
  | (key, .number n) :: rest =>
    leaf key (.number n) rest trivial (treeInduction nil leaf table rest)
  | (key, .text t) :: rest => leaf key (.text t) rest trivial (treeInduction nil leaf table rest)
  | (key, .list items) :: rest =>
    leaf key (.list items) rest trivial (treeInduction nil leaf table rest)

/-- Walking down to a place keeps tables without braces, if the work there does. -/
theorem descend_areBraceFree {ε : Type}
    {work : Text → VariableTree → Attempt ε Redeclaration VariableTree}
    (hwork : ∀ key node, HasNoBrace key → AreBraceFree node → AreBraceFree (work key node).state)
    {walked : List Text} {key : Text} {keys : List Text} {node : VariableTree}
    (hkeys : ∀ k ∈ key :: keys, HasNoBrace k) (hnode : AreBraceFree node) :
    AreBraceFree (VariableTree.descend work walked key keys node).state := by
  induction keys generalizing walked key node with
  | nil => exact hwork key node (hkeys key (by simp)) hnode
  | cons next keys ih =>
    rw [List.forall_mem_cons] at hkeys
    rw [VariableTree.descend]
    refine hnode.set hkeys.1 (ih hkeys.2 ?_)
    -- The table to go on in is the one at the key, or a new one.
    split
    · rename_i child hget
      exact hnode.get? hget
    · trivial
    · trivial
    · trivial

theorem setLeaf_areBraceFree {ε : Type} (path : Text) {value : Value} (hvalue : IsBraceFree value)
    (key : Text) (node : VariableTree) (hkey : HasNoBrace key) (hnode : AreBraceFree node) :
    AreBraceFree (VariableTree.setLeaf (ε := ε) path value key node).state :=
  hnode.set hkey hvalue

theorem assign_areBraceFree {tree : VariableTree} (h : AreBraceFree tree) {path : Text}
    (hpath : HasNoBrace path) {value : Value} (hleaf : IsLeaf value) (hvalue : IsBraceFree value) :
    AreBraceFree (tree.assign path value).state := by
  have hkeys := hasNoBrace_of_mem_components hpath
  rw [VariableTree.assign]
  cases hcomponents : components path with
  | nil => exact h
  | cons key keys =>
    rw [hcomponents] at hkeys
    cases value with
    | table entries => exact absurd hleaf id
    | _ => exact descend_areBraceFree (setLeaf_areBraceFree path hvalue) hkeys h

/-! ## Flattening -/

theorem hasNoBrace_joinPath {path key : Text} (hpath : HasNoBrace path) (hkey : HasNoBrace key) :
    HasNoBrace (VariableTree.joinPath path key) := by
  rw [VariableTree.joinPath]
  split
  · exact hkey
  · intro c hc
    rcases List.mem_append.1 hc with hc | hc
    · exact hpath c hc
    · rcases List.mem_cons.1 hc with rfl | hc
      · decide
      · exact hkey c hc

/-- What flattening lists: a path without braces and a value that is no table. -/
def IsFlat (x : Text × Value) : Prop := HasNoBrace x.1 ∧ IsLeaf x.2 ∧ IsBraceFree x.2

theorem leavesOf_of_isLeaf {value : Value} (h : IsLeaf value) (path : Text) :
    VariableTree.leavesOf path value = [(path, value)] := by
  cases value with
  | table entries => exact absurd h id
  | _ => rfl

theorem leaves_isFlat {entries : VariableTree} (h : AreBraceFree entries) {path : Text}
    (hpath : HasNoBrace path) : ∀ x ∈ VariableTree.leaves path entries, IsFlat x := by
  induction entries using treeInduction generalizing path with
  | nil => simp [VariableTree.leaves]
  | leaf key value rest hvalue ih =>
    have hkey := hasNoBrace_joinPath hpath h.1
    rw [VariableTree.leaves, leavesOf_of_isLeaf hvalue, List.singleton_append,
      List.forall_mem_cons]
    exact ⟨⟨hkey, hvalue, h.2.1⟩, ih h.2.2 hpath⟩
  | table key entries rest ihentries ihrest =>
    have hkey := hasNoBrace_joinPath hpath h.1
    rw [VariableTree.leaves, VariableTree.leavesOf, List.forall_mem_append]
    exact ⟨ihentries h.2.1 hkey, ihrest h.2.2 hpath⟩

/-- A table that lists only what flattening lists, set pair by pair. -/
theorem ofPairs_isFlat {pairs : List (Text × Value)} (h : ∀ x ∈ pairs, IsFlat x) :
    ∀ x ∈ Entries.ofPairs pairs, IsFlat x := by
  have fold : ∀ entries : Entries Value, (∀ x ∈ entries, IsFlat x) → ∀ x ∈ pairs.foldl
      (fun entries x => entries.set x.1 x.2) entries, IsFlat x := by
    induction pairs with
    | nil => exact fun _ hentries => hentries
    | cons pair rest ih =>
      rw [List.forall_mem_cons] at h
      intro entries hentries
      refine ih h.2 _ ?_
      intro x hx
      rcases Entries.mem_of_mem_set hx with rfl | hx
      · exact h.1
      · exact hentries x hx
  exact fold [] (by simp)

theorem flatten_isFlat {tree : VariableTree} (h : AreBraceFree tree) :
    ∀ x ∈ tree.flatten, IsFlat x :=
  ofPairs_isFlat (leaves_isFlat h (by simp [HasNoBrace]))

end Descriptor

/-! ## Declaring -/

open Descriptor

theorem isBraceFree_typeName (type : VariableType) : IsBraceFree (.text type.name) := by
  cases type <;> exact forall_mem_of_all rfl

theorem Declaration.hasNoBrace_path {d : Declaration} (h : d.IsProper) : HasNoBrace d.path := by
  intro c hc
  have hfield := isFieldChar_of_mem_path h hc
  simp only [isFieldChar, Bool.and_eq_true, bne_iff_ne] at hfield
  exact hfield.1

theorem isProper_of_mem_declarations {s : Text} {d : Declaration} (h : d ∈ declarations s) :
    d.IsProper := by
  obtain ⟨prev, s', rest, hread⟩ := Declaration.pattern.exists_read_of_mem_tokens h
  exact Declaration.isProper_of_read hread

namespace Variables

theorem assignType_areBraceFree {v : Variables} (h : AreBraceFree v.types) {x : Text × Value}
    (hx : IsFlat x) : AreBraceFree (v.assignType x.1 x.2).state.types :=
  assign_areBraceFree h hx.1 hx.2.1 hx.2.2

/-- Declaring a variable keeps the types without braces. -/
theorem declare_areBraceFree {v : Variables} (h : AreBraceFree v.types) {d : Declaration}
    (hd : d.IsProper) : AreBraceFree (v.declare d).state.types := by
  have htype := assignType_areBraceFree h (x := (d.path, .text (typeOf d.written).name))
    ⟨Declaration.hasNoBrace_path hd, trivial, isBraceFree_typeName _⟩
  refine Attempt.andThen_preserves (P := fun v : Variables => AreBraceFree v.types) htype ?_
  intro v hv
  split
  · exact hv
  · exact hv

theorem scan_areBraceFree (s : Text) : AreBraceFree (scan s).state.types := by
  refine Attempt.forEach_preserves (P := fun v : Variables => AreBraceFree v.types) ?_ trivial
  intro d hd v hv
  exact declare_areBraceFree hv (isProper_of_mem_declarations hd)

/-- Merging keeps the types without braces; it does not touch them when it comes to the defaults. -/
theorem merge_areBraceFree {v other : Variables} (h : AreBraceFree v.types)
    (hother : AreBraceFree other.types) : AreBraceFree (v.merge other).state.types := by
  refine Attempt.andThen_preserves (P := fun v : Variables => AreBraceFree v.types) ?_ ?_
  · refine Attempt.forEach_preserves (P := fun v : Variables => AreBraceFree v.types) ?_ h
    intro x hx v hv
    exact assignType_areBraceFree hv (flatten_isFlat hother x hx)
  · intro v hv
    refine Attempt.forEach_preserves (P := fun v : Variables => AreBraceFree v.types) ?_ hv
    intro x hx v hv
    exact hv

/-- Taking in the variables of a text keeps the types without braces. -/
theorem takeIn_areBraceFree {v : Variables} (h : AreBraceFree v.types) (s : Text) :
    AreBraceFree (v.takeIn s).state.types := by
  simp only [takeIn]
  split
  · exact h
  · exact merge_areBraceFree h (scan_areBraceFree s)

end Variables

end SvgAssets.Template
