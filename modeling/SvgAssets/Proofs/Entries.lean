/-
# SvgAssets.Proofs.Entries -- tables in order of insertion

A table is known by its names, in order, and the value of each (`ext_of_names`). Setting a name that
is not there puts it at the end; so names keep the order in which they first came, which for a list
of names is `List.eraseDups`.
-/
import Mathlib.Data.List.Induction
import Mathlib.Data.List.Nodup
import SvgAssets.Entries

namespace SvgAssets

namespace Entries

variable {α : Type}

theorem get?_eq_none_iff {entries : Entries α} {name : Text} :
    entries.get? name = none ↔ name ∉ entries.names := by
  induction entries with
  | nil => simp [get?, names]
  | cons x rest ih =>
    rw [get?]
    split
    · rename_i h
      simp [names, h]
    · rename_i h
      rw [ih]
      simp [names, Ne.symm h]

theorem get?_append (xs ys : Entries α) (name : Text) :
    (xs ++ ys : Entries α).get? name = (xs.get? name).or (ys.get? name) := by
  induction xs with
  | nil => rfl
  | cons x xs ih =>
    rw [List.cons_append, get?, get?]
    split
    · rfl
    · exact ih

theorem mem_of_get? {xs : Entries α} {name : Text} {a : α}
    (h : xs.get? name = some a) : (name, a) ∈ xs := by
  induction xs with
  | nil => cases h
  | cons x xs ih =>
    rw [get?] at h
    split at h
    · rename_i hname
      cases h
      rw [← hname]
      exact List.mem_cons_self ..
    · exact List.mem_cons_of_mem _ (ih h)

/-- Where no name comes twice, an entry gives its name its value. -/
theorem get?_eq_some_iff {xs : Entries α} (h : xs.names.Nodup) {name : Text} {a : α} :
    xs.get? name = some a ↔ (name, a) ∈ xs := by
  refine ⟨mem_of_get?, fun hmem => ?_⟩
  induction xs with
  | nil => cases hmem
  | cons x rest ih =>
    rw [names, List.map_cons, List.nodup_cons] at h
    rw [get?]
    rcases List.mem_cons.1 hmem with rfl | hmem
    · exact if_pos rfl
    · have hname : name ∈ rest.map Prod.fst := List.mem_map.2 ⟨(name, a), hmem, rfl⟩
      rw [if_neg, ih h.2 hmem]
      rintro rfl
      exact h.1 hname

/-- Two tables with the same names in the same order, and the same value for each name, are the
same. -/
theorem ext_of_names {xs ys : Entries α} (hnames : xs.names = ys.names) (hnodup : xs.names.Nodup)
    (h : ∀ name, xs.get? name = ys.get? name) : xs = ys := by
  induction xs generalizing ys with
  | nil => exact (List.map_eq_nil_iff.1 hnames.symm).symm
  | cons x rest ih =>
    obtain ⟨n, a⟩ := x
    cases ys with
    | nil => cases hnames
    | cons y others =>
      obtain ⟨m, b⟩ := y
      rw [names, names, List.map_cons, List.map_cons, List.cons.injEq] at hnames
      rw [names, List.map_cons, List.nodup_cons] at hnodup
      obtain ⟨rfl, hnames⟩ := hnames
      have hhead := h n
      rw [get?, get?, if_pos rfl, if_pos rfl] at hhead
      cases hhead
      have htail : rest = others := by
        refine ih hnames hnodup.2 ?_
        intro name
        by_cases he : n = name
        · rw [← he, get?_eq_none_iff.2 hnodup.1, get?_eq_none_iff.2]
          rw [names, ← hnames]
          exact hnodup.1
        · have hname := h name
          rwa [get?, get?, if_neg he, if_neg he] at hname
      rw [htail]

theorem mem_of_mem_set {entries : Entries α} {name : Text} {value : α} {x : Text × α}
    (h : x ∈ entries.set name value) : x = (name, value) ∨ x ∈ entries := by
  fun_induction set name value entries with
  | case1 => exact .inl (List.mem_singleton.1 h)
  | case2 => exact (List.mem_cons.1 h).imp_right (List.mem_cons_of_mem _)
  | case3 n b rest hn ih =>
    rcases List.mem_cons.1 h with rfl | h
    · exact .inr (List.mem_cons_self ..)
    · exact (ih h).imp_right (List.mem_cons_of_mem _)

theorem set_ne_nil (entries : Entries α) (name : Text) (a : α) : entries.set name a ≠ [] := by
  intro h
  have hget := get?_set_self entries name a
  rw [h] at hget
  cases hget

theorem nodup_names_set {entries : Entries α} (h : entries.names.Nodup) (name : Text) (a : α) :
    (entries.set name a).names.Nodup := by
  rw [names_set]
  split
  · exact h
  · rename_i hname
    exact List.Nodup.append h (List.nodup_singleton name) (by simpa using hname)

theorem set_of_not_mem {entries : Entries α} {name : Text} (h : name ∉ entries.names) (a : α) :
    entries.set name a = entries ++ [(name, a)] := by
  induction entries with
  | nil => rfl
  | cons x rest ih =>
    rw [names, List.map_cons, List.mem_cons, not_or] at h
    rw [set, if_neg (Ne.symm h.1), ih h.2, List.cons_append]

/-- Of two values set one after the other, the second counts. -/
theorem set_set (entries : Entries α) (name : Text) (a b : α) :
    (entries.set name a).set name b = entries.set name b := by
  fun_induction set name a entries with
  | case1 => simp [set]
  | case2 => simp [set]
  | case3 n c rest hn ih => simp [set, hn, ih]

/-- Setting a name to the value that it has changes nothing. -/
theorem set_of_get? {entries : Entries α} {name : Text} {a : α} (h : entries.get? name = some a) :
    entries.set name a = entries := by
  induction entries with
  | nil => cases h
  | cons x rest ih =>
    rw [get?] at h
    rw [set]
    split at h
    · rename_i hname
      cases h
      rw [if_pos hname, ← hname]
    · rename_i hname
      rw [if_neg hname, ih h]

/-- Pairs with different names are a table already. -/
theorem ofPairs_of_nodup {pairs : Entries α} (h : pairs.names.Nodup) : ofPairs pairs = pairs := by
  induction pairs using List.reverseRecOn with
  | nil => rfl
  | append_singleton pairs x ih =>
    rw [names, List.map_append, List.nodup_append] at h
    have hfold : ofPairs (pairs ++ [x]) = (ofPairs pairs).set x.1 x.2 := by
      rw [ofPairs, List.foldl_append]
      rfl
    rw [hfold, ih h.1, set_of_not_mem]
    intro hx
    exact h.2.2 x.1 hx x.1 (by simp) rfl

end Entries

/-! ## Order of first occurrence -/

/-- Of the items that pass a test, the first occurrences are those of all items that pass it. -/
theorem eraseDups_filter {α : Type} [BEq α] [LawfulBEq α] (p : α → Bool) (xs : List α) :
    (xs.filter p).eraseDups = xs.eraseDups.filter p := by
  match xs with
  | [] => rfl
  | x :: xs =>
    -- The recursion is on the items behind the first that differ from it.
    have hshorter : (xs.filter fun y => !y == x).length ≤ xs.length := List.length_filter_le _ _
    rw [List.eraseDups_cons]
    by_cases hx : p x = true
    · rw [List.filter_cons_of_pos hx, List.filter_cons_of_pos hx, List.eraseDups_cons,
        ← eraseDups_filter p, List.filter_filter, List.filter_filter]
      simp only [Bool.and_comm]
    · have hsame : (xs.filter fun y => !y == x).filter p = xs.filter p := by
        rw [List.filter_filter]
        apply List.filter_congr
        intro y _
        by_cases hy : y = x
        · simp [hy, hx]
        · simp [hy]
      rw [List.filter_cons_of_neg hx, List.filter_cons_of_neg hx, ← eraseDups_filter p, hsame]
termination_by xs.length

end SvgAssets
