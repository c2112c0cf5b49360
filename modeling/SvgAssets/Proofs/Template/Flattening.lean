/-
# SvgAssets.Proofs.Template.Flattening -- a tree is rebuilt from its values

A tree is merged into another by way of its flat table: the place of each value is written as a
path, and the path is read again when the value is assigned. In a tidy tree nothing gets lost on the
way, for its names have no dots and are not empty (`map_flatten`). What is assigned are the values
of the finished tree, in the order in which they stand there, and not the values that it was built
from. When none of their places is above another, that comes to the same for every tree that they
are put in, the order of the names at every level included (`putAll_places_putAll`).
-/
import SvgAssets.Proofs.Template.Places

namespace SvgAssets.Template

open Text Descriptor

namespace VariableTree

/-! ## Tidy trees -/

/-- What may be put in a tree: a value that is no table, at a place that a path can name. -/
structure IsEntry (e : List Text × Value) : Prop where
  ne_nil : e.1 ≠ []
  isComponent : ∀ key ∈ e.1, IsComponent key
  isLeaf : IsLeaf e.2

mutual

/-- No table in the value is empty, and all are tidy. -/
def IsTidyValue : Value → Prop
  | .table entries => entries ≠ [] ∧ IsTidy entries
  | _ => True

/-- The names can be read from a path, no name comes twice, and the values are tidy. -/
def IsTidy : List (Text × Value) → Prop
  | [] => True
  | (key, value) :: rest =>
    IsComponent key ∧ key ∉ Entries.names rest ∧ IsTidyValue value ∧ IsTidy rest

end

theorem isTidy_iff {tree : VariableTree} :
    IsTidy tree ↔ (∀ x ∈ tree, IsComponent x.1 ∧ IsTidyValue x.2) ∧ tree.names.Nodup := by
  induction tree with
  | nil => simp [IsTidy, Entries.names]
  | cons x rest ih =>
    rw [IsTidy, ih, List.forall_mem_cons, Entries.names, Entries.names, List.map_cons,
      List.nodup_cons]
    tauto

theorem isTidyValue_of_isLeaf {value : Value} (h : IsLeaf value) : IsTidyValue value := by
  cases value with
  | table entries => exact absurd h id
  | _ => trivial

theorem IsTidy.get? {tree : VariableTree} (h : IsTidy tree) {key : Text} {value : Value}
    (hget : tree.get? key = some value) : IsComponent key ∧ IsTidyValue value := by
  induction tree with
  | nil => cases hget
  | cons x rest ih =>
    rw [Entries.get?] at hget
    split at hget
    · rename_i he
      cases hget
      exact ⟨he ▸ h.1, h.2.2.1⟩
    · exact ih h.2.2.2 hget

theorem IsTidy.isTidyValue_get? {tree : VariableTree} (h : IsTidy tree) (key : Text) :
    ∀ value ∈ tree.get? key, IsTidyValue value :=
  fun _ hget => (h.get? hget).2

theorem IsTidy.set {tree : VariableTree} (h : IsTidy tree) {key : Text} (hkey : IsComponent key)
    {value : Value} (hvalue : IsTidyValue value) : IsTidy (tree.set key value) := by
  rw [isTidy_iff] at h ⊢
  refine ⟨?_, Entries.nodup_names_set h.2 key value⟩
  intro x hx
  rcases Entries.mem_of_mem_set hx with rfl | hx
  · exact ⟨hkey, hvalue⟩
  · exact h.1 x hx

theorem IsTidy.filter {tree : VariableTree} (h : IsTidy tree) (q : Text × Value → Bool) :
    IsTidy (tree.filter q) := by
  rw [isTidy_iff] at h ⊢
  refine ⟨fun x hx => h.1 x (List.mem_filter.1 hx).1, ?_⟩
  exact h.2.sublist (List.filter_sublist.map _)

theorem isTidy_tableOf {old : Option Value} (h : ∀ value ∈ old, IsTidyValue value) :
    IsTidy (tableOf old) := by
  cases old with
  | none => trivial
  | some value =>
    cases value with
    | table entries => exact (h _ rfl).2
    | _ => trivial

theorem isTidyValue_putAt {keys : List Text} (hkeys : ∀ key ∈ keys, IsComponent key)
    {value : Value} (hvalue : IsLeaf value) {old : Option Value}
    (hold : ∀ value ∈ old, IsTidyValue value) : IsTidyValue (putAt value keys old) := by
  induction keys generalizing old with
  | nil => exact isTidyValue_of_isLeaf hvalue
  | cons key keys ih =>
    rw [List.forall_mem_cons] at hkeys
    have htable := isTidy_tableOf hold
    exact ⟨Entries.set_ne_nil _ _ _, htable.set hkeys.1 (ih hkeys.2 (htable.isTidyValue_get? key))⟩

theorem IsTidy.put {tree : VariableTree} (h : IsTidy tree) {e : List Text × Value}
    (he : IsEntry e) : IsTidy (tree.put e) := by
  obtain ⟨place, value⟩ := e
  cases place with
  | nil => exact h
  | cons key keys =>
    have hkeys := List.forall_mem_cons.1 he.isComponent
    exact h.set hkeys.1 (isTidyValue_putAt hkeys.2 he.isLeaf (h.isTidyValue_get? key))

theorem IsTidy.putAll {tree : VariableTree} (h : IsTidy tree) {entries : List (List Text × Value)}
    (hentries : ∀ e ∈ entries, IsEntry e) : IsTidy (tree.putAll entries) := by
  induction entries generalizing tree with
  | nil => exact h
  | cons e rest ih =>
    rw [List.forall_mem_cons] at hentries
    exact ih (h.put hentries.1) hentries.2

/-- In a tidy tree nothing is found at a place that no path can name. -/
theorem IsTidy.isComponent_of_lookup? {tree : VariableTree} (h : IsTidy tree) {place : List Text}
    {value : Value} (hlookup : tree.lookup? place = some value) :
    ∀ key ∈ place, IsComponent key := by
  induction place generalizing tree with
  | nil => cases hlookup
  | cons key keys ih =>
    rw [List.forall_mem_cons]
    by_cases hkeys : keys = []
    · rw [hkeys] at hlookup ⊢
      exact ⟨(h.get? hlookup).1, by simp⟩
    · rw [lookup?_cons hkeys] at hlookup
      refine ⟨?_, ih (isTidy_tableOf (h.isTidyValue_get? key)) hlookup⟩
      cases hget : tree.get? key with
      | none =>
        rw [hget] at hlookup
        rw [show tableOf none = [] from rfl, lookup?_nil] at hlookup
        cases hlookup
      | some child => exact (h.get? hget).1

/-! ## The values of a tree -/

mutual

/-- The values that are no tables, each with its place below. -/
def placesOf : Value → List (List Text × Value)
  | .table entries => places entries
  | value => [([], value)]

/-- The values in a list of entries that are no tables, each with its place, in order. -/
def places : List (Text × Value) → List (List Text × Value)
  | [] => []
  | (key, value) :: rest => (placesOf value).map (fun e => (key :: e.1, e.2)) ++ places rest

end

theorem placesOf_of_isLeaf {value : Value} (h : IsLeaf value) : placesOf value = [([], value)] := by
  cases value with
  | table entries => exact absurd h id
  | _ => rfl

theorem places_leaf (key : Text) {value : Value} (h : IsLeaf value) (rest : VariableTree) :
    places ((key, value) :: rest) = ([key], value) :: places rest := by
  rw [places, placesOf_of_isLeaf h]
  rfl

theorem places_table (key : Text) (entries rest : VariableTree) :
    places ((key, .table entries) :: rest) =
      (places entries).map (fun e => (key :: e.1, e.2)) ++ places rest := rfl

theorem isEntry_of_mem_places {tree : VariableTree} (h : IsTidy tree) :
    ∀ e ∈ places tree, IsEntry e := by
  induction tree using treeInduction with
  | nil => simp [places]
  | leaf key value rest hvalue ih =>
    rw [places_leaf key hvalue, List.forall_mem_cons]
    exact ⟨⟨by simp, by simpa using h.1, hvalue⟩, ih h.2.2.2⟩
  | table key entries rest ihentries ihrest =>
    intro e he
    rw [places_table, List.mem_append, List.mem_map] at he
    rcases he with ⟨inner, hinner, rfl⟩ | he
    · have hentry := ihentries h.2.2.1.2 inner hinner
      exact ⟨by simp, List.forall_mem_cons.2 ⟨h.1, hentry.isComponent⟩, hentry.isLeaf⟩
    · exact ihrest h.2.2.2 e he

theorem places_ne_nil {tree : VariableTree} (h : IsTidy tree) (hne : tree ≠ []) :
    places tree ≠ [] := by
  induction tree using treeInduction with
  | nil => exact absurd rfl hne
  | leaf key value rest hvalue _ =>
    rw [places_leaf key hvalue]
    exact List.cons_ne_nil _ _
  | table key entries rest ihentries _ =>
    rw [places_table]
    simp [ihentries h.2.2.1.2 h.2.2.1.1]

/-- Every place begins with a name of the tree. -/
theorem head?_ne_of_mem_places {tree : VariableTree} {key : Text} (h : key ∉ tree.names)
    {e : List Text × Value} (he : e ∈ places tree) : e.1.head? ≠ some key := by
  induction tree with
  | nil => cases he
  | cons x rest ih =>
    obtain ⟨first, value⟩ := x
    rw [Entries.names, List.map_cons, List.mem_cons, not_or] at h
    rw [places, List.mem_append, List.mem_map] at he
    rcases he with ⟨inner, _, rfl⟩ | he
    · intro hhead
      exact h.1 (Option.some.inj hhead).symm
    · exact ih h.2 he

/-- No two values of a tidy tree stand at the same place. -/
theorem nodup_places {tree : VariableTree} (h : IsTidy tree) :
    ((places tree).map (·.1)).Nodup := by
  have hhead : ∀ {key : Text} {rest : VariableTree} {keys : List Text}, key ∉ rest.names →
      key :: keys ∉ (places rest).map (·.1) := by
    intro key rest keys hkey hmem
    obtain ⟨e, he, hplace⟩ := List.mem_map.1 hmem
    apply head?_ne_of_mem_places hkey he
    rw [hplace, List.head?_cons]
  induction tree using treeInduction with
  | nil => exact List.nodup_nil
  | leaf key value rest hvalue ih =>
    rw [places_leaf key hvalue, List.map_cons, List.nodup_cons]
    exact ⟨hhead h.2.1, ih h.2.2.2⟩
  | table key entries rest ihentries ihrest =>
    rw [places_table, List.map_append, List.nodup_append]
    have hmap : ((places entries).map fun e => (key :: e.1, e.2)).map (·.1) =
        ((places entries).map (·.1)).map (key :: ·) := by simp
    rw [hmap]
    refine ⟨(ihentries h.2.2.1.2).map (List.cons_injective), ihrest h.2.2.2, ?_⟩
    rintro _ hfirst place hplace rfl
    obtain ⟨keys, _, rfl⟩ := List.mem_map.1 hfirst
    exact hhead h.2.1 hplace

/-! ## Flat tables -/

/-- The paths that are written for the values of a tidy tree name their places. -/
theorem map_leaves {tree : VariableTree} (h : IsTidy tree) (path : Text) :
    (leaves path tree).map (fun x => (components x.1, x.2)) =
      (places tree).map fun e => (components path ++ e.1, e.2) := by
  induction tree using treeInduction generalizing path with
  | nil => rfl
  | leaf key value rest hvalue ih =>
    rw [leaves, leavesOf_of_isLeaf hvalue, places_leaf key hvalue]
    simp [ih h.2.2.2, components_joinPath path h.1]
  | table key entries rest ihentries ihrest =>
    rw [leaves, leavesOf, places_table, List.map_append, List.map_append, ihrest h.2.2.2,
      ihentries h.2.2.1.2, components_joinPath path h.1]
    simp

/-- The flat table of a tidy tree lists its values, and its paths name their places. -/
theorem map_flatten {tree : VariableTree} (h : IsTidy tree) :
    tree.flatten.map (fun x => (components x.1, x.2)) = places tree := by
  have hleaves : (leaves [] tree).map (fun x => (components x.1, x.2)) = places tree := by
    rw [map_leaves h]
    exact List.map_id' _
  have hnodup : (Entries.names (leaves [] tree)).Nodup := by
    have hplaces := nodup_places h
    rw [← hleaves, List.map_map] at hplaces
    refine List.Nodup.of_map components ?_
    rwa [Entries.names, List.map_map]
  rw [flatten, Entries.ofPairs_of_nodup hnodup, hleaves]

/-! ## The values below a name -/

/-- What `places` lists below a name, given what stands there. -/
def placesAt : Option Value → List (List Text × Value)
  | some value => placesOf value
  | none => []

theorem below_map_cons (key : Text) (entries : List (List Text × Value)) :
    below key (entries.map fun e => (key :: e.1, e.2)) = entries := by
  induction entries with
  | nil => rfl
  | cons e rest ih => rw [List.map_cons, below_cons_self, ih]

theorem below_eq_nil {key : Text} {entries : List (List Text × Value)}
    (h : ∀ e ∈ entries, e.1.head? ≠ some key) : below key entries = [] := by
  rw [List.eq_nil_iff_forall_not_mem]
  rintro ⟨keys, value⟩ hmem
  exact h _ (mem_below.1 hmem) rfl

theorem below_places {tree : VariableTree} (h : tree.names.Nodup) (key : Text) :
    below key (places tree) = placesAt (tree.get? key) := by
  induction tree with
  | nil => rfl
  | cons x rest ih =>
    obtain ⟨first, value⟩ := x
    rw [Entries.names, List.map_cons, List.nodup_cons] at h
    rw [places, below_append, Entries.get?]
    by_cases hkey : first = key
    · subst hkey
      rw [if_pos rfl, below_map_cons, below_eq_nil fun e he => head?_ne_of_mem_places h.1 he,
        List.append_nil]
      rfl
    · rw [if_neg hkey, ih h.2, below_eq_nil, List.nil_append]
      intro e he hhead
      obtain ⟨inner, _, rfl⟩ := List.mem_map.1 he
      exact hkey (Option.some.inj hhead)

theorem heads_map_cons (key : Text) (entries : List (List Text × Value)) :
    heads (entries.map fun e => (key :: e.1, e.2)) = List.replicate entries.length key := by
  induction entries with
  | nil => rfl
  | cons e rest ih =>
    rw [List.length_cons, List.replicate_succ, ← ih]
    rfl

/-- The names of a tidy tree, in order, are those that the places of its values begin with. -/
theorem eraseDups_heads_places {tree : VariableTree} (h : IsTidy tree) :
    (heads (places tree)).eraseDups = tree.names := by
  induction tree with
  | nil => rfl
  | cons x rest ih =>
    obtain ⟨key, value⟩ := x
    obtain ⟨_, hkey, hvalue, hrest⟩ := h
    have hne : placesOf value ≠ [] := by
      cases value with
      | table entries => exact places_ne_nil hvalue.2 hvalue.1
      | _ => exact List.cons_ne_nil _ _
    obtain ⟨e, others, he⟩ := List.exists_cons_of_ne_nil hne
    have hother : (heads (places rest)).filter (fun k => !k == key) = heads (places rest) := by
      rw [List.filter_eq_self]
      intro first hfirst
      obtain ⟨e', he', hhead⟩ := List.mem_filterMap.1 hfirst
      have hne : first ≠ key := by
        rintro rfl
        exact head?_ne_of_mem_places hkey he' hhead
      simpa using hne
    rw [places, heads, List.filterMap_append]
    show (heads ((placesOf value).map _) ++ heads (places rest)).eraseDups = _
    have hsame : (List.replicate others.length key).filter (fun k => !k == key) = [] := by simp
    rw [heads_map_cons, he, List.length_cons, List.replicate_succ, List.cons_append,
      List.eraseDups_cons, List.filter_append, hsame, hother, List.nil_append, ih hrest]
    rfl

/-! ## Places of which none is above another -/

/-- No place of the list is above another. -/
def ArePrefixFree (places : List (List Text)) : Prop :=
  ∀ place ∈ places, ∀ other ∈ places, place <+: other → place = other

theorem ArePrefixFree.below {entries : List (List Text × Value)}
    (h : ArePrefixFree (entries.map (·.1))) (key : Text) :
    ArePrefixFree ((below key entries).map (·.1)) := by
  intro place hplace other hother hprefix
  obtain ⟨⟨_, value⟩, hmem, rfl⟩ := List.mem_map.1 hplace
  obtain ⟨⟨_, value'⟩, hmem', rfl⟩ := List.mem_map.1 hother
  have hcons := h _ (List.mem_map_of_mem (mem_below.1 hmem)) _
    (List.mem_map_of_mem (mem_below.1 hmem')) (List.prefix_cons_inj key |>.2 hprefix)
  exact (List.cons.inj hcons).2

/-- Below a name there is either one value, which may have been replaced, or a table. -/
theorem ArePrefixFree.eq_nil_or_ne_nil {entries : List (List Text × Value)}
    (h : ArePrefixFree (entries.map (·.1))) :
    (∀ e ∈ entries, e.1 = []) ∨ ∀ e ∈ entries, e.1 ≠ [] := by
  by_cases hnil : ∃ e ∈ entries, e.1 = []
  · obtain ⟨e, he, hplace⟩ := hnil
    refine .inl fun other hother => ?_
    have heq := h e.1 (List.mem_map_of_mem he) other.1 (List.mem_map_of_mem hother)
      (hplace ▸ List.nil_prefix)
    exact heq ▸ hplace
  · exact .inr fun e he hplace => hnil ⟨e, he, hplace⟩

theorem putAllAt_of_eq_nil {entries : List (List Text × Value)} (hne : entries ≠ [])
    (h : ∀ e ∈ entries, e.1 = []) (old : Option Value) :
    putAllAt old entries = some (entries.getLast hne).2 := by
  have hlast := h _ (List.getLast_mem hne)
  conv => lhs; rw [← List.dropLast_append_getLast hne]
  rw [putAllAt, List.foldl_append, List.foldl_cons, List.foldl_nil, hlast, putAt]

theorem putAllAt_of_ne_nil {entries : List (List Text × Value)} (hne : entries ≠ [])
    (h : ∀ e ∈ entries, e.1 ≠ []) (old : Option Value) :
    putAllAt old entries = some (.table ((tableOf old).putAll entries)) := by
  induction entries using List.reverseRecOn with
  | nil => exact absurd rfl hne
  | append_singleton entries e ih =>
    have he : e.1 ≠ [] := h e (by simp)
    rw [putAllAt, List.foldl_append, List.foldl_cons, List.foldl_nil, putAt_of_ne_nil he,
      putAll_append]
    by_cases hentries : entries = []
    · rw [hentries]
      rfl
    · rw [← putAllAt, ih hentries fun x hx => h x (List.mem_append_left _ hx)]
      rfl

theorem putAll_ne_nil {entries : List (List Text × Value)} (hne : entries ≠ [])
    (h : ∀ e ∈ entries, e.1 ≠ []) : putAll [] entries ≠ [] := by
  rw [← List.dropLast_append_getLast hne, putAll_append]
  have hlast := h _ (List.getLast_mem hne)
  obtain ⟨key, keys, hplace⟩ := List.exists_cons_of_ne_nil hlast
  show put _ ((entries.getLast hne).1, (entries.getLast hne).2) ≠ []
  rw [hplace]
  exact Entries.set_ne_nil _ _ _

/-! ## Rebuilding a tree from its values -/

theorem isTidy_nil : IsTidy [] := trivial

/-- The values below a name that are left in the end are as good as all that were put there, if this
is known of tables. -/
theorem putAllAt_placesAt {entries : List (List Text × Value)}
    (hfree : ArePrefixFree (entries.map (·.1)))
    (hentry : ∀ e ∈ entries, (∀ key ∈ e.1, IsComponent key) ∧ IsLeaf e.2) (old : Option Value)
    (htable : (∀ e ∈ entries, IsEntry e) → (tableOf old).putAll (places (putAll [] entries)) =
      (tableOf old).putAll entries) :
    putAllAt old (placesAt (putAllAt none entries)) = putAllAt old entries := by
  by_cases hne : entries = []
  · rw [hne]
    rfl
  rcases hfree.eq_nil_or_ne_nil with hnil | hplaces
  · -- Values at the name itself: the last of them is left, and it is put in last.
    rw [putAllAt_of_eq_nil hne hnil, putAllAt_of_eq_nil hne hnil, placesAt,
      placesOf_of_isLeaf (hentry _ (List.getLast_mem hne)).2]
    rfl
  · -- A table: it is not empty, so putting its values in makes a table of what was there as well.
    have hall : ∀ e ∈ entries, IsEntry e := fun e he =>
      ⟨hplaces e he, (hentry e he).1, (hentry e he).2⟩
    have htidy : IsTidy (putAll [] entries) := isTidy_nil.putAll hall
    have hbuilt : putAll [] entries ≠ [] := putAll_ne_nil hne hplaces
    rw [putAllAt_of_ne_nil hne hplaces, putAllAt_of_ne_nil hne hplaces, placesAt]
    show putAllAt old (places (putAll [] entries)) = _
    rw [putAllAt_of_ne_nil (places_ne_nil htidy hbuilt) fun e he =>
      (isEntry_of_mem_places htidy e he).ne_nil, htable hall]

/-- **A tree may be flattened before its values are put in.** Where no place is above another, it
does not matter whether values are put in a tree one by one, or are first put together in a tree of
their own, of which then the values are put in. -/
theorem putAll_places_putAll {tree : VariableTree} (htree : IsTidy tree)
    {entries : List (List Text × Value)} (hentries : ∀ e ∈ entries, IsEntry e)
    (hfree : ArePrefixFree (entries.map (·.1))) :
    tree.putAll (places (putAll [] entries)) = tree.putAll entries := by
  obtain ⟨n, hn⟩ : ∃ n, ∀ e ∈ entries, e.1.length ≤ n :=
    ⟨(entries.map (·.1)).flatten.length, fun e he =>
      (List.sublist_flatten_of_mem (List.mem_map_of_mem he)).length_le⟩
  -- Induction on the depth of the places: one level is settled by the names of its table, and what
  -- stands behind each of them is less deep.
  induction n generalizing tree entries with
  | zero =>
    cases entries with
    | nil => rfl
    | cons e rest =>
      have hlen := hn e List.mem_cons_self
      exact absurd (List.length_eq_zero_iff.1 (Nat.le_zero.1 hlen))
        (hentries e List.mem_cons_self).ne_nil
  | succ n ih =>
    have htidy : IsTidy (putAll [] entries) := isTidy_nil.putAll hentries
    have hbuilt := isTidy_iff.1 (htree.putAll fun e he => isEntry_of_mem_places htidy e he)
    refine Entries.ext_of_names ?_ hbuilt.2 ?_
    · -- The tree of their own has the same names in the same order as the places.
      have hheads : ((heads (places (putAll [] entries))).removeAll tree.names).eraseDups =
          ((heads entries).removeAll tree.names).eraseDups := by
        rw [List.removeAll, List.removeAll, eraseDups_filter, eraseDups_filter,
          eraseDups_heads_places htidy, names_putAll_nil]
      rw [names_putAll, names_putAll, hheads]
    · intro key
      rw [get?_putAll, get?_putAll, below_places (isTidy_iff.1 htidy).2, get?_putAll]
      have hbelow : ∀ e ∈ below key entries, (∀ k ∈ e.1, IsComponent k) ∧ IsLeaf e.2 := by
        rintro ⟨keys, value⟩ he
        have hentry := hentries _ (mem_below.1 he)
        exact ⟨fun k hk => hentry.isComponent k (List.mem_cons_of_mem key hk), hentry.isLeaf⟩
      refine putAllAt_placesAt (hfree.below key) hbelow _ fun hall => ?_
      refine ih (isTidy_tableOf (htree.isTidyValue_get? key)) hall (hfree.below key) ?_
      rintro ⟨keys, value⟩ he
      exact Nat.le_of_succ_le_succ (hn _ (mem_below.1 he))

end VariableTree

end SvgAssets.Template
