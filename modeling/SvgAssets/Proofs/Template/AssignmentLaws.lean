/-
# SvgAssets.Proofs.Template.AssignmentLaws -- the laws of an assignment

An assignment is an update at a place, and obeys what one expects of such (`assign_laws`): what was
assigned is found at its place; what stands neither above nor below is found as before; in the
tables on the way the names keep their positions, and a new name goes to the end; and the same
assignment once more changes nothing. The laws hold of every tree, also where the way down meets
values that have to give way.

Whether the second assignment is reported is a matter of the value alone: it is, unless the value
agrees with itself. Only a NaN does not (`agrees_self_iff`). A list that holds one does, since among
its items an object counts as equal to itself.
-/
import SvgAssets.Proofs.Template.LastDeclaration
import SvgAssets.Proofs.Template.Redeclarations

namespace SvgAssets

/-! ## Values that agree with themselves -/

namespace Value

/-- The value is a NaN, whatever object it is. -/
def IsNan (v : Value) : Prop := ∃ object, v = .number (.float (.nan object))

/-- No table in the value has a name twice. -/
inductive IsProper : Value → Prop
  | null : IsProper .null
  | bool (b : Bool) : IsProper (.bool b)
  | number (n : Number) : IsProper (.number n)
  | text (t : Text) : IsProper (.text t)
  | list {items : List Value} : (∀ item ∈ items, IsProper item) → IsProper (.list items)
  | table {entries : Entries Value} :
    entries.names.Nodup → (∀ entry ∈ entries, IsProper entry.2) → IsProper (.table entries)

theorem isSameNan_self_iff {v : Value} : v.isSameNan v = true ↔ v.IsNan := by
  constructor
  · intro h
    unfold isSameNan at h
    split at h
    · exact ⟨_, rfl⟩
    · cases h
  · rintro ⟨object, rfl⟩
    exact beq_self_eq_true object

theorem agreesList_self {items : List Value}
    (h : ∀ item ∈ items, item.IsNan ∨ item.agrees item = true) :
    agreesList items items = true := by
  induction items with
  | nil => rfl
  | cons item rest ih =>
    rw [List.forall_mem_cons] at h
    rw [agreesList, Bool.and_eq_true, Bool.or_eq_true, isSameNan_self_iff]
    exact ⟨h.1, ih h.2⟩

theorem agreesEntries_of_get? {xs ys : Entries Value}
    (h : ∀ x ∈ xs, ys.get? x.1 = some x.2 ∧ (x.2.IsNan ∨ x.2.agrees x.2 = true)) :
    agreesEntries xs ys = true := by
  induction xs with
  | nil => rfl
  | cons x rest ih =>
    obtain ⟨name, value⟩ := x
    rw [List.forall_mem_cons] at h
    obtain ⟨⟨hfound, hself⟩, hrest⟩ := h
    rw [agreesEntries, hfound, Bool.and_eq_true, Bool.or_eq_true, isSameNan_self_iff]
    exact ⟨hself, ih hrest⟩

theorem equal_self_iff {n : Number} :
    n.equal n = true ↔ ¬ IsNan (.number n) := by
  rw [Number.equal_iff]
  cases n with
  | int n => simp [Number.value?, IsNan]
  | float x => cases x <;> simp [Number.value?, Binary64.value?, IsNan]

theorem not_isNan_of_ne_number {v : Value} (h : ∀ n, v ≠ .number n) : ¬ v.IsNan := by
  rintro ⟨object, hv⟩
  exact h _ hv

/-- A value agrees with itself unless it is a NaN. It makes no difference what a list or a table
holds. -/
theorem agrees_self_iff {v : Value} (h : v.IsProper) : v.agrees v = true ↔ ¬ v.IsNan := by
  have hself {v : Value} (h : v.agrees v = true ↔ ¬ v.IsNan) : v.IsNan ∨ v.agrees v = true := by
    rw [h]
    exact em _
  have hother {v : Value} (hv : ∀ n, v ≠ .number n) (h : v.agrees v = true) :
      v.agrees v = true ↔ ¬ v.IsNan := iff_of_true h (not_isNan_of_ne_number hv)
  induction h with
  | null => exact hother (by simp) rfl
  | bool b => exact hother (by simp) (by simp [agrees, asNumber?, Number.equal])
  | text t => exact hother (by simp) (by simp [agrees])
  | number n => rw [agrees, asNumber?, Option.map_some, Option.getD_some, equal_self_iff]
  | list _ ih =>
    refine hother (by simp) ?_
    rw [agrees]
    exact agreesList_self fun item hitem => hself (ih item hitem)
  | table hnames _ ih =>
    refine hother (by simp) ?_
    rw [agrees, beq_self_eq_true, Bool.true_and]
    exact agreesEntries_of_get? fun entry hentry =>
      ⟨(Entries.get?_eq_some_iff hnames).2 hentry, hself (ih entry hentry)⟩

end Value

namespace Template

open Text Descriptor

namespace VariableTree

/-! ## The same place twice -/

theorem putAt_putAt (v w : Value) (keys : List Text) (old : Option Value) :
    putAt w keys (some (putAt v keys old)) = putAt w keys old := by
  induction keys generalizing old with
  | nil => rfl
  | cons key keys ih => simp only [putAt, tableOf, Entries.get?_set_self, Entries.set_set, ih]

/-- Of two values put at the same place, the second counts. -/
theorem put_put (tree : VariableTree) (place : List Text) (v w : Value) :
    (tree.put (place, v)).put (place, w) = tree.put (place, w) := by
  cases place with
  | nil => rfl
  | cons key keys => simp only [put, Entries.get?_set_self, Entries.set_set, putAt_putAt]

/-- A value that stands at its place meets nothing but itself. -/
theorem isSilent_iff_of_lookup? {tree : VariableTree} {place : List Text} {value : Value}
    (h : tree.lookup? place = some value) :
    IsSilent tree place value ↔ value.agrees value = true := by
  constructor
  · intro hsilent
    by_cases hnull : value = .null
    · rw [hnull]
      rfl
    · exact hsilent.there value h hnull
  · intro hagrees
    constructor
    case above =>
      intro front hbegins hother found hfound hleaf
      have hfront : front ≠ [] := by
        rintro rfl
        cases hfound
      obtain ⟨entries, htable⟩ := exists_table_of_prefix hfront hbegins hother h
      rw [hfound, Option.some_inj] at htable
      rw [htable] at hleaf
      exact absurd hleaf id
    case there =>
      intro found hfound _
      rw [h, Option.some_inj] at hfound
      rw [← hfound]
      exact hagrees

/-! ## The names on the way -/

/-- The names in the table at a place, in order; there are none where no table stands. -/
def namesAt (tree : VariableTree) : List Text → List Text
  | [] => tree.names
  | key :: keys => namesAt (tableOf (tree.get? key)) keys

/-- Above its place, a value that is put appends the next name of the place, unless it is there
already. -/
theorem namesAt_put (tree : VariableTree) (front : List Text) (key : Text) (back : List Text)
    (value : Value) :
    (tree.put (front ++ key :: back, value)).namesAt front =
      if key ∈ tree.namesAt front then tree.namesAt front else tree.namesAt front ++ [key] := by
  induction front generalizing tree with
  | nil => exact Entries.names_set _ _ _
  | cons first front ih =>
    rw [List.cons_append, put, namesAt, namesAt, Entries.get?_set_self,
      putAt_of_ne_nil (by simp : front ++ key :: back ≠ [])]
    exact ih _

/-! ## The laws -/

/-- What is required of an assignment that leads from `tree` to `after`. -/
structure IsUpdate (tree after : VariableTree) (place : List Text) (value : Value) : Prop where
  /-- The value is found at its place. -/
  found : after.lookup? place = some value
  /-- What is neither above nor below the place is found as before. -/
  frame : ∀ other, AreApart place other → after.lookup? other = tree.lookup? other
  /-- In every table on the way names keep their positions, and a new one goes to the end. -/
  order : ∀ front key back, place = front ++ key :: back →
    after.namesAt front =
      if key ∈ tree.namesAt front then tree.namesAt front else tree.namesAt front ++ [key]

theorem isUpdate_put (tree : VariableTree) {place : List Text} (hplace : place ≠ [])
    (value : Value) : IsUpdate tree (tree.put (place, value)) place value where
  found := lookup?_put_self tree hplace value
  frame _ hother := lookup?_put_of_areApart tree hother value
  order front key back hsplit := by
    rw [hsplit]
    exact namesAt_put tree front key back value

/-- **Laws of an assignment.** Where the path names a place, a value that is no table is put there
and nothing else changes; to assign it again leaves the tree as it is, and is reported exactly
where the value is a NaN. A path that names no place is refused. -/
theorem assign_laws (tree : VariableTree) (path : Text) {value : Value} (hvalue : IsLeaf value)
    (hproper : value.IsProper) :
    let first := tree.assign path value
    let second := first.state.assign path value
    (components path = [] → first = .fail tree ⟨path⟩) ∧
      (components path ≠ [] →
        first.failure = none ∧ IsUpdate tree first.state (components path) value ∧
        second.state = first.state ∧ second.failure = none ∧
        (second.notices = [] ↔ ¬ value.IsNan)) := by
  intro first second
  have hfirst : first.state = tree.put (components path, value) := state_assign hvalue tree path
  constructor
  · intro hplace
    show tree.assign path value = _
    rw [assign, hplace]
  · intro hplace
    refine ⟨?_, ?_, ?_, ?_, ?_⟩
    · exact (failure_assign hvalue tree path).trans (if_neg hplace)
    · rw [hfirst]
      exact isUpdate_put tree hplace value
    · rw [state_assign hvalue, hfirst, put_put]
    · exact (failure_assign hvalue first.state path).trans (if_neg hplace)
    · rw [notices_assign_eq_nil_iff hvalue hplace, hfirst,
        isSilent_iff_of_lookup? (lookup?_put_self tree hplace value),
        Value.agrees_self_iff hproper]

/-- A tree in which a value stands where the path `b..c.` needs a table. -/
def valueOnTheWay : VariableTree := [("a".toList, .int 1), ("b".toList, .text "red".toList)]

/-- A list that holds a NaN, and yet agrees with itself. -/
def nanInList : Value := .list [.int 2, .number (.float .nan)]

theorem assign_laws_value_on_the_way :
    IsLeaf nanInList ∧ nanInList.IsProper ∧ ¬ nanInList.IsNan ∧
      (valueOnTheWay.assign "b..c.".toList nanInList).state.lookup?
        ["b".toList, "c".toList] = some nanInList ∧
      (valueOnTheWay.assign "b..c.".toList nanInList).state.lookup? ["a".toList] =
        some (.int 1) ∧
      (valueOnTheWay.assign "b..c.".toList nanInList).state.names =
        ["a".toList, "b".toList] ∧
      ((valueOnTheWay.assign "b..c.".toList nanInList).state.assign "b..c.".toList
        nanInList).notices = [] := by
  have hproper : nanInList.IsProper := by
    refine .list fun item hitem => ?_
    rw [List.mem_cons, List.mem_singleton] at hitem
    rcases hitem with rfl | rfl
    · exact .number (.int 2)
    · exact .number _
  have hnan : ¬ nanInList.IsNan := nofun
  have hplace : components "b..c.".toList = ["b".toList, "c".toList] := by decide +kernel
  have hleaf : IsLeaf nanInList := trivial
  obtain ⟨-, hlaws⟩ := assign_laws valueOnTheWay "b..c.".toList hleaf hproper
  rw [hplace] at hlaws
  obtain ⟨-, hupdate, -, -, hnotices⟩ := hlaws nofun
  refine ⟨hleaf, hproper, hnan, hupdate.found, ?_, ?_, hnotices.2 hnan⟩
  · exact hupdate.frame ["a".toList] (by rw [AreApart]; decide +kernel)
  · exact hupdate.order [] _ _ rfl

end VariableTree

end Template

end SvgAssets
