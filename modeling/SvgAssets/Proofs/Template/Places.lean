/-
# SvgAssets.Proofs.Template.Places -- where a path puts its value

A dot path counts by its components alone. Assigning a value that is no table puts it at the place
that they name (`state_assign`), and it fails only where there are none (`failure_assign`); so a
sequence of assignments is a fold of `put` over places. What such a fold leaves behind is read off
in two ways. By `lookup?`: the last value put at a place stands there as long as nothing above or
below is put later (`lookup?_putAll_last`), and there are no other values (`exists_mem_of_lookup?`).
And table by table: the names are those that came first, in the order in which they came
(`names_putAll`), and behind each name stands what was put below it (`get?_putAll`).
-/
import SvgAssets.Proofs.Entries
import SvgAssets.Proofs.Template.DeclaredNames

namespace SvgAssets.Template

open Text Descriptor

/-! ## Components -/

/-- What can stand between two dots: it is not empty and holds no dot. -/
def IsComponent (key : Text) : Prop := key ≠ [] ∧ '.' ∉ key

theorem isComponent_of_mem_components {path key : Text} (h : key ∈ components path) :
    IsComponent key := by
  obtain ⟨hpart, hne⟩ := List.mem_filter.1 h
  refine ⟨?_, not_mem_of_mem_splitOn hpart⟩
  intro he
  simp [he] at hne

theorem components_append_dot (path rest : Text) :
    components (path ++ '.' :: rest) = components path ++ components rest := by
  rw [components, splitOn_append_cons, List.filter_append]
  rfl

theorem components_of_isComponent {key : Text} (h : IsComponent key) : components key = [key] := by
  rw [components, splitOn_eq_singleton h.2]
  simp [h.1]

theorem components_joinPath (path : Text) {key : Text} (h : IsComponent key) :
    components (VariableTree.joinPath path key) = components path ++ [key] := by
  rw [VariableTree.joinPath]
  split
  · rename_i hpath
    rw [List.isEmpty_iff.1 hpath, components_of_isComponent h]
    rfl
  · rw [components_append_dot, components_of_isComponent h]

namespace VariableTree

/-! ## Putting values at places -/

/-- The table to go on in: the one that stands there, or else a new one. -/
def tableOf : Option Value → VariableTree
  | some (.table entries) => entries
  | _ => []

/-- What stands at a place once `value` was put at the end of the given names below it. -/
def putAt (value : Value) : List Text → Option Value → Value
  | [], _ => value
  | key :: keys, old => .table ((tableOf old).set key (putAt value keys ((tableOf old).get? key)))

/-- Put a value at a place. -/
def put (tree : VariableTree) : List Text × Value → VariableTree
  | ([], _) => tree
  | (key :: keys, value) => tree.set key (putAt value keys (tree.get? key))

/-- Put values at places, one after the other. -/
def putAll (tree : VariableTree) (entries : List (List Text × Value)) : VariableTree :=
  entries.foldl put tree

theorem putAt_of_ne_nil {keys : List Text} (h : keys ≠ []) (value : Value) (old : Option Value) :
    putAt value keys old = .table ((tableOf old).put (keys, value)) := by
  cases keys with
  | nil => exact absurd rfl h
  | cons key keys => rfl

theorem tableOf_of_isLeaf {value : Value} (h : IsLeaf value) : tableOf (some value) = [] := by
  cases value with
  | table entries => exact absurd h id
  | _ => rfl

theorem putAll_cons (tree : VariableTree) (e : List Text × Value)
    (rest : List (List Text × Value)) : tree.putAll (e :: rest) = (tree.put e).putAll rest := rfl

theorem putAll_append (tree : VariableTree) (xs ys : List (List Text × Value)) :
    tree.putAll (xs ++ ys) = (tree.putAll xs).putAll ys :=
  List.foldl_append

/-- A step down changes the table at the name, as the rest of the way says. -/
theorem descend_cons {ε : Type}
    (work : Text → VariableTree → Attempt ε Redeclaration VariableTree) (walked : List Text)
    (key next : Text) (keys : List Text) (node : VariableTree) :
    (descend work walked key (next :: keys) node).state =
        node.set key (.table
          (descend work (walked ++ [key]) next keys (tableOf (node.get? key))).state) ∧
      (descend work walked key (next :: keys) node).failure =
        (descend work (walked ++ [key]) next keys (tableOf (node.get? key))).failure := by
  rw [descend]
  cases node.get? key with
  | none => exact ⟨rfl, rfl⟩
  | some old => cases old <;> exact ⟨rfl, rfl⟩

theorem descend_setLeaf {ε : Type} (path : Text) (value : Value) (walked : List Text) (key : Text)
    (keys : List Text) (node : VariableTree) :
    (descend (setLeaf (ε := ε) path value) walked key keys node).state =
        node.put (key :: keys, value) ∧
      (descend (setLeaf (ε := ε) path value) walked key keys node).failure = none := by
  induction keys generalizing walked key node with
  | nil => exact ⟨rfl, rfl⟩
  | cons next keys ih =>
    obtain ⟨hstate, hfailure⟩ :=
      descend_cons (setLeaf (ε := ε) path value) walked key next keys node
    obtain ⟨ihstate, ihfailure⟩ := ih (walked ++ [key]) next (tableOf (node.get? key))
    refine ⟨?_, hfailure.trans ihfailure⟩
    rw [hstate, ihstate]
    rfl

/-- Assigning a value that is no table puts it at the place that the path names. -/
theorem state_assign {value : Value} (h : IsLeaf value) (tree : VariableTree) (path : Text) :
    (tree.assign path value).state = tree.put (components path, value) := by
  rw [assign]
  cases components path with
  | nil => rfl
  | cons key keys =>
    cases value with
    | table entries => exact absurd h id
    | _ => exact (descend_setLeaf path _ [] key keys tree).1

/-- It fails only where the path names no place. -/
theorem failure_assign {value : Value} (h : IsLeaf value) (tree : VariableTree) (path : Text) :
    (tree.assign path value).failure = if components path = [] then some ⟨path⟩ else none := by
  rw [assign]
  cases components path with
  | nil => rfl
  | cons key keys =>
    cases value with
    | table entries => exact absurd h id
    | _ => exact (descend_setLeaf path _ [] key keys tree).2

/-! ## Looking up what was put -/

theorem lookup?_nil (keys : List Text) : lookup? [] keys = none := by
  rcases keys with _ | ⟨key, _ | ⟨next, keys⟩⟩ <;> rfl

/-- Below its first name, a place is looked up in the table that stands there. -/
theorem lookup?_cons {keys : List Text} (h : keys ≠ []) (tree : VariableTree) (key : Text) :
    tree.lookup? (key :: keys) = lookup? (tableOf (tree.get? key)) keys := by
  cases keys with
  | nil => exact absurd rfl h
  | cons next keys =>
    rw [lookup?]
    cases tree.get? key with
    | none => exact (lookup?_nil _).symm
    | some value =>
      cases value with
      | table entries => rfl
      | _ => exact (lookup?_nil _).symm

/-- Below its first name, what is found at a place stands in a table. -/
theorem exists_table_of_lookup? {tree : VariableTree} {key : Text} {keys : List Text}
    (h : keys ≠ []) {value : Value} (hlookup : tree.lookup? (key :: keys) = some value) :
    ∃ entries, tree.get? key = some (.table entries) ∧ lookup? entries keys = some value := by
  rw [lookup?_cons h] at hlookup
  cases hget : tree.get? key with
  | none =>
    rw [hget, show tableOf none = [] from rfl, lookup?_nil] at hlookup
    cases hlookup
  | some found =>
    cases found with
    | table entries =>
      rw [hget] at hlookup
      exact ⟨entries, rfl, hlookup⟩
    | _ =>
      rw [hget, show tableOf (some _) = [] from rfl, lookup?_nil] at hlookup
      cases hlookup

/-- What is found in front is found before anything that comes behind. -/
theorem lookup?_append_left {tree : VariableTree} {place : List Text} {value : Value}
    (h : tree.lookup? place = some value) (other : VariableTree) :
    lookup? (tree ++ other) place = some value := by
  cases place with
  | nil => cases h
  | cons key keys =>
    by_cases hkeys : keys = []
    · rw [hkeys] at h ⊢
      rw [lookup?] at h ⊢
      rw [Entries.get?_append, h]
      rfl
    · obtain ⟨entries, hget, hbelow⟩ := exists_table_of_lookup? hkeys h
      rw [lookup?_cons hkeys, Entries.get?_append, hget]
      exact hbelow

theorem lookup?_put_self (tree : VariableTree) {place : List Text} (h : place ≠ [])
    (value : Value) : (tree.put (place, value)).lookup? place = some value := by
  induction place generalizing tree with
  | nil => exact absurd rfl h
  | cons key keys ih =>
    rw [put]
    by_cases hkeys : keys = []
    · rw [hkeys]
      exact Entries.get?_set_self _ _ _
    · rw [lookup?_cons hkeys, Entries.get?_set_self, putAt_of_ne_nil hkeys]
      exact ih _ hkeys

/-- Neither of two places is above the other. -/
def AreApart (place other : List Text) : Prop := ¬ place <+: other ∧ ¬ other <+: place

theorem lookup?_put_of_areApart (tree : VariableTree) {place other : List Text}
    (h : AreApart place other) (value : Value) :
    (tree.put (place, value)).lookup? other = tree.lookup? other := by
  obtain ⟨habove, hbelow⟩ := h
  induction place generalizing tree other with
  | nil => exact absurd List.nil_prefix habove
  | cons key keys ih =>
    cases other with
    | nil => exact absurd List.nil_prefix hbelow
    | cons next others =>
      rw [put]
      by_cases hkey : next = key
      · -- The places part further down, so both go on.
        rw [hkey, List.prefix_cons_inj] at habove hbelow
        have hkeys : keys ≠ [] := fun he => habove (he ▸ List.nil_prefix)
        have hothers : others ≠ [] := fun he => hbelow (he ▸ List.nil_prefix)
        rw [hkey, lookup?_cons hothers, lookup?_cons hothers, Entries.get?_set_self,
          putAt_of_ne_nil hkeys]
        exact ih _ habove hbelow
      · have hget := Entries.get?_set_of_ne tree (putAt value keys (tree.get? key)) hkey
        by_cases hothers : others = []
        · rw [hothers]
          exact hget
        · rw [lookup?_cons hothers, lookup?_cons hothers, hget]

/-- Above what stands at a place there are tables. -/
theorem exists_table_of_prefix {tree : VariableTree} {place other : List Text} (hne : place ≠ [])
    (habove : place <+: other) (hother : place ≠ other) {value : Value}
    (h : tree.lookup? other = some value) :
    ∃ entries, tree.lookup? place = some (.table entries) := by
  induction place generalizing tree other with
  | nil => exact absurd rfl hne
  | cons key keys ih =>
    obtain ⟨others, rfl⟩ : ∃ others, other = key :: others := by
      obtain ⟨t, rfl⟩ := habove
      exact ⟨keys ++ t, rfl⟩
    rw [List.prefix_cons_inj] at habove
    have hkeys : keys ≠ others := fun he => hother (by rw [he])
    have hothers : others ≠ [] := by
      rintro rfl
      exact hkeys (List.prefix_nil.1 habove)
    obtain ⟨entries, hget, hbelow⟩ := exists_table_of_lookup? hothers h
    by_cases hnil : keys = []
    · rw [hnil]
      exact ⟨entries, hget⟩
    · rw [lookup?_cons hnil, hget]
      exact ih hnil habove hkeys hbelow

/-- Behind a value that is put there is the value itself, there are tables above it, and elsewhere
there is what there was. -/
theorem lookup?_put_cases {tree : VariableTree} {place other : List Text} {value found : Value}
    (hvalue : IsLeaf value) (h : (tree.put (place, value)).lookup? other = some found) :
    (other = place ∧ found = value) ∨
      (other <+: place ∧ other ≠ place ∧ ∃ entries, found = .table entries) ∨
        tree.lookup? other = some found := by
  by_cases hnil : place = []
  · rw [hnil] at h
    exact .inr (.inr h)
  have hself := lookup?_put_self tree hnil value
  by_cases hplace : other = place
  · rw [hplace, hself, Option.some_inj] at h
    exact .inl ⟨hplace, h.symm⟩
  by_cases hbelow : place <+: other
  · -- Above what is found a table stands, and no value.
    obtain ⟨entries, htable⟩ := exists_table_of_prefix hnil hbelow (Ne.symm hplace) h
    rw [hself, Option.some_inj] at htable
    rw [htable] at hvalue
    exact absurd hvalue id
  by_cases habove : other <+: place
  · have hother : other ≠ [] := by
      rintro rfl
      cases h
    obtain ⟨entries, htable⟩ := exists_table_of_prefix hother habove hplace hself
    rw [h, Option.some_inj] at htable
    exact .inr (.inl ⟨habove, hplace, entries, htable⟩)
  · rw [lookup?_put_of_areApart tree ⟨hbelow, habove⟩] at h
    exact .inr (.inr h)

/-- Behind a value that is put there are no other values than there were. -/
theorem eq_or_lookup?_of_lookup?_put {tree : VariableTree} {place other : List Text}
    {value found : Value} (hvalue : IsLeaf value) (hfound : IsLeaf found)
    (h : (tree.put (place, value)).lookup? other = some found) :
    other = place ∨ tree.lookup? other = some found := by
  obtain ⟨hplace, -⟩ | ⟨-, -, entries, rfl⟩ | hlookup := lookup?_put_cases hvalue h
  · exact .inl hplace
  · exact absurd hfound id
  · exact .inr hlookup

/-! ## Looking up after many -/

/-- A place keeps what stands there while values are put neither above nor below it. -/
theorem lookup?_putAll_of_areApart {entries : List (List Text × Value)} {place : List Text}
    (h : ∀ e ∈ entries, AreApart e.1 place) (tree : VariableTree) :
    (tree.putAll entries).lookup? place = tree.lookup? place := by
  induction entries generalizing tree with
  | nil => rfl
  | cons e rest ih =>
    rw [List.forall_mem_cons] at h
    show ((tree.put e).putAll rest).lookup? place = _
    rw [ih h.2]
    exact lookup?_put_of_areApart tree h.1 e.2

/-- The value that is put last stands at its place. -/
theorem lookup?_putAll_last (front : List (List Text × Value)) {back : List (List Text × Value)}
    {place : List Text} (hne : place ≠ [])
    (hback : ∀ e ∈ back, AreApart e.1 place) (value : Value) (tree : VariableTree) :
    (tree.putAll (front ++ (place, value) :: back)).lookup? place = some value := by
  rw [putAll_append]
  show (((tree.putAll front).put (place, value)).putAll back).lookup? place = some value
  rw [lookup?_putAll_of_areApart hback]
  exact lookup?_put_self _ hne value

/-- Every value that is found was put at its place. -/
theorem exists_mem_of_lookup? {entries : List (List Text × Value)}
    (h : ∀ e ∈ entries, IsLeaf e.2) {place : List Text} {found : Value} (hfound : IsLeaf found)
    (hlookup : (putAll [] entries).lookup? place = some found) : ∃ e ∈ entries, e.1 = place := by
  induction entries using List.reverseRecOn with
  | nil =>
    rw [putAll, List.foldl_nil, lookup?_nil] at hlookup
    cases hlookup
  | append_singleton entries e ih =>
    rw [putAll_append] at hlookup
    rcases eq_or_lookup?_of_lookup?_put (h e (by simp)) hfound hlookup with rfl | hlookup
    · exact ⟨e, by simp, rfl⟩
    · obtain ⟨e', he', hplace⟩ := ih (fun x hx => h x (List.mem_append_left _ hx)) hlookup
      exact ⟨e', List.mem_append_left _ he', hplace⟩

/-! ## Table by table -/

/-- The first names of the places, in order. -/
def heads (entries : List (List Text × Value)) : List Text := entries.filterMap (·.1.head?)

/-- The part of the places that lies below a name. -/
def below (key : Text) (entries : List (List Text × Value)) : List (List Text × Value) :=
  entries.filterMap fun
    | (first :: keys, value) => if first = key then some (keys, value) else none
    | ([], _) => none

/-- What stands at a name once values were put below it, one after the other. -/
def putAllAt (old : Option Value) (entries : List (List Text × Value)) : Option Value :=
  entries.foldl (fun old e => some (putAt e.2 e.1 old)) old

theorem mem_below {key : Text} {entries : List (List Text × Value)} {keys : List Text}
    {value : Value} : (keys, value) ∈ below key entries ↔ (key :: keys, value) ∈ entries := by
  rw [below, List.mem_filterMap]
  constructor
  · rintro ⟨⟨place, v⟩, hmem, he⟩
    cases place with
    | nil => cases he
    | cons first others =>
      simp only [Option.ite_none_right_eq_some, Option.some.injEq, Prod.mk.injEq] at he
      obtain ⟨rfl, rfl, rfl⟩ := he
      exact hmem
  · intro hmem
    exact ⟨_, hmem, if_pos rfl⟩

@[simp] theorem below_cons_self (key : Text) (keys : List Text) (value : Value)
    (rest : List (List Text × Value)) :
    below key ((key :: keys, value) :: rest) = (keys, value) :: below key rest := by
  simp [below]

theorem below_cons_of_ne {key first : Text} (h : first ≠ key) (keys : List Text) (value : Value)
    (rest : List (List Text × Value)) :
    below key ((first :: keys, value) :: rest) = below key rest := by
  simp [below, h]

theorem below_append (key : Text) (xs ys : List (List Text × Value)) :
    below key (xs ++ ys) = below key xs ++ below key ys :=
  List.filterMap_append

/-- The names of a table that values are put in: those that were there, and behind them the new
ones, in the order in which they came. -/
theorem names_putAll (tree : VariableTree) (entries : List (List Text × Value)) :
    (tree.putAll entries).names =
      tree.names ++ ((heads entries).removeAll tree.names).eraseDups := by
  induction entries using List.reverseRecOn with
  | nil => exact (List.append_nil _).symm
  | append_singleton entries e ih =>
    obtain ⟨place, value⟩ := e
    rw [putAll_append, heads, List.filterMap_append]
    show ((tree.putAll entries).put (place, value)).names = _
    cases place with
    | nil =>
      rw [put, ih, heads, List.filterMap_cons_none rfl, List.filterMap_nil, List.append_nil]
    | cons key keys =>
      rw [put, Entries.names_set, ih, heads]
      generalize entries.filterMap (·.1.head?) = names
      -- The name is new if neither the table had it nor a place before began with it.
      simp only [List.filterMap_cons, List.head?_cons, List.filterMap_nil, List.removeAll,
        List.filter_append, List.eraseDups_append, List.mem_append, List.mem_eraseDups,
        List.mem_filter]
      by_cases htree : key ∈ tree.names
      · simp [htree]
      · by_cases hname : key ∈ names
        · simp [htree, hname]
        · simp [htree, hname, List.eraseDups_cons]

theorem names_putAll_nil (entries : List (List Text × Value)) :
    (putAll [] entries).names = (heads entries).eraseDups := by
  have hall : (heads entries).removeAll (Entries.names ([] : VariableTree)) = heads entries :=
    List.filter_true _
  rw [names_putAll, hall]
  rfl

/-- Behind a name of a table that values are put in stands what was put below the name. -/
theorem get?_putAll (tree : VariableTree) (entries : List (List Text × Value)) (key : Text) :
    (tree.putAll entries).get? key = putAllAt (tree.get? key) (below key entries) := by
  induction entries generalizing tree with
  | nil => rfl
  | cons e rest ih =>
    obtain ⟨place, value⟩ := e
    show ((tree.put (place, value)).putAll rest).get? key = _
    rw [ih]
    cases place with
    | nil => rfl
    | cons first keys =>
      rw [put]
      by_cases h : first = key
      · rw [h, Entries.get?_set_self, below_cons_self]
        rfl
      · rw [Entries.get?_set_of_ne _ _ (Ne.symm h), below_cons_of_ne h]

end VariableTree

end SvgAssets.Template
