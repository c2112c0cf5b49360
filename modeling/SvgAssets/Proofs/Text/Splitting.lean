/-
# SvgAssets.Proofs.Text.Splitting -- the parts between separators

The parts that a text is split into are free of the separator and hold nothing but characters of
the text. Splitting undoes putting together (`splitOn_intercalate`), and a separator in the middle
of a text splits it into the parts in front and the parts behind (`splitOn_append_cons`).
-/
import SvgAssets.Text.Basic

namespace SvgAssets.Text

variable {sep : Char}

theorem splitOn_cons_self (s : Text) : splitOn sep (sep :: s) = [] :: splitOn sep s := by
  rw [splitOn, if_pos rfl]

/-- A character that does not separate belongs to the first part. -/
theorem splitOn_cons_of_ne {c : Char} (h : c ≠ sep) (s : Text) :
    splitOn sep (c :: s) = (splitOn sep s).modifyHead (c :: ·) := by
  rw [splitOn, if_neg h]
  cases hs : splitOn sep s with
  | nil => exact absurd hs (splitOn_ne_nil sep s)
  | cons part parts => rfl

theorem splitOn_eq_singleton {s : Text} (h : sep ∉ s) : splitOn sep s = [s] := by
  induction s with
  | nil => rfl
  | cons c s ih =>
    rw [List.mem_cons, not_or] at h
    rw [splitOn_cons_of_ne (Ne.symm h.1), ih h.2, List.modifyHead_cons]

theorem splitOn_append_cons (s t : Text) :
    splitOn sep (s ++ sep :: t) = splitOn sep s ++ splitOn sep t := by
  induction s with
  | nil => exact splitOn_cons_self t
  | cons c s ih =>
    rw [List.cons_append]
    by_cases h : c = sep
    · rw [h, splitOn_cons_self, splitOn_cons_self, ih, List.cons_append]
    · rw [splitOn_cons_of_ne h, splitOn_cons_of_ne h, ih]
      cases hs : splitOn sep s with
      | nil => exact absurd hs (splitOn_ne_nil sep s)
      | cons part parts => rfl

theorem not_mem_of_mem_splitOn {s part : Text} (h : part ∈ splitOn sep s) : sep ∉ part := by
  induction s generalizing part with
  | nil =>
    rw [splitOn, List.mem_singleton] at h
    rw [h]
    exact List.not_mem_nil
  | cons c s ih =>
    by_cases hc : c = sep
    · rw [hc, splitOn_cons_self] at h
      rcases List.mem_cons.1 h with rfl | h
      · exact List.not_mem_nil
      · exact ih h
    · rw [splitOn_cons_of_ne hc] at h
      cases hs : splitOn sep s with
      | nil => exact absurd hs (splitOn_ne_nil sep s)
      | cons first others =>
        rw [hs] at ih h
        rcases List.mem_cons.1 h with rfl | h
        · rw [List.mem_cons, not_or]
          exact ⟨Ne.symm hc, ih List.mem_cons_self⟩
        · exact ih (List.mem_cons_of_mem first h)

theorem mem_of_mem_splitOn {c : Char} {s part : Text} (hpart : part ∈ splitOn sep s)
    (hc : c ∈ part) : c ∈ s := by
  induction s generalizing part with
  | nil =>
    rw [splitOn, List.mem_singleton] at hpart
    rwa [hpart] at hc
  | cons d s ih =>
    by_cases hd : d = sep
    · rw [hd, splitOn_cons_self] at hpart
      rcases List.mem_cons.1 hpart with rfl | hpart
      · cases hc
      · exact List.mem_cons_of_mem d (ih hpart hc)
    · rw [splitOn_cons_of_ne hd] at hpart
      cases hs : splitOn sep s with
      | nil => exact absurd hs (splitOn_ne_nil sep s)
      | cons first others =>
        rw [hs] at ih hpart
        rcases List.mem_cons.1 hpart with rfl | hpart
        · exact (List.mem_cons.1 hc).elim (fun he => by rw [he]; exact List.mem_cons_self)
            fun hc => List.mem_cons_of_mem d (ih List.mem_cons_self hc)
        · exact List.mem_cons_of_mem d (ih (List.mem_cons_of_mem first hpart) hc)

theorem intercalate_cons (s : Text) (parts : List Text) :
    [sep].intercalate (s :: parts) = s ++ parts.flatMap (sep :: ·) := by
  induction parts generalizing s with
  | nil => simp
  | cons t parts ih => rw [List.intercalate_cons_cons, ih, List.append_assoc]; rfl

theorem map_intercalate (f : Char → Char) (parts : List Text) :
    ([sep].intercalate parts).map f = [f sep].intercalate (parts.map (·.map f)) := by
  cases parts with
  | nil => rfl
  | cons s parts =>
    rw [intercalate_cons, List.map_cons, intercalate_cons, List.map_append, List.map_flatMap,
      List.flatMap_map]
    rfl

theorem mem_intercalate {c : Char} {parts : List Text} (h : c ∈ [sep].intercalate parts) :
    c = sep ∨ ∃ s ∈ parts, c ∈ s := by
  cases parts with
  | nil => cases h
  | cons s parts =>
    rw [intercalate_cons, List.mem_append, List.mem_flatMap] at h
    rcases h with h | ⟨t, ht, h⟩
    · exact .inr ⟨s, List.mem_cons_self, h⟩
    · exact (List.mem_cons.1 h).imp_right fun h => ⟨t, List.mem_cons_of_mem s ht, h⟩

/-- Parts put together with the separator are split one after the other. -/
theorem splitOn_intercalate_eq_flatMap {parts : List Text} (hne : parts ≠ []) :
    splitOn sep ([sep].intercalate parts) = parts.flatMap (splitOn sep) := by
  induction parts with
  | nil => exact absurd rfl hne
  | cons s parts ih =>
    cases parts with
    | nil => simp
    | cons t parts =>
      rw [List.intercalate_cons_cons, List.append_assoc, List.singleton_append,
        splitOn_append_cons, ih (List.cons_ne_nil _ _)]
      rfl

/-- Parts without the separator, put together with it, are split into the same parts. -/
theorem splitOn_intercalate {parts : List Text} (hne : parts ≠ [])
    (h : ∀ s ∈ parts, sep ∉ s) : splitOn sep ([sep].intercalate parts) = parts := by
  rw [splitOn_intercalate_eq_flatMap hne, List.flatMap_def,
    List.map_congr_left fun s hs => splitOn_eq_singleton (h s hs), ← List.flatMap_def]
  exact List.flatMap_singleton' parts

/-- A text with a separator in it is split into several parts. -/
theorem one_lt_length_splitOn {s : Text} (h : sep ∈ s) : 1 < (splitOn sep s).length := by
  obtain ⟨x, y, rfl⟩ := List.append_of_mem h
  have hx := List.length_pos_iff.2 (splitOn_ne_nil sep x)
  have hy := List.length_pos_iff.2 (splitOn_ne_nil sep y)
  rw [splitOn_append_cons, List.length_append]
  omega

/-- Parts put together are split into no fewer parts, and into as many only if none holds the
separator. -/
theorem length_le_length_splitOn_intercalate {parts : List Text} (hne : parts ≠ []) :
    parts.length ≤ (splitOn sep ([sep].intercalate parts)).length ∧
      ((splitOn sep ([sep].intercalate parts)).length ≤ parts.length → ∀ s ∈ parts, sep ∉ s) := by
  rw [splitOn_intercalate_eq_flatMap hne]
  clear hne
  induction parts with
  | nil => exact ⟨Nat.le_refl _, fun _ s hs => absurd hs List.not_mem_nil⟩
  | cons s parts ih =>
    have hs := List.length_pos_iff.2 (splitOn_ne_nil sep s)
    obtain ⟨hle, hfree⟩ := ih
    rw [List.flatMap_cons, List.length_append, List.length_cons, List.forall_mem_cons]
    refine ⟨by omega, fun h => ⟨fun hmem => ?_, hfree (by omega)⟩⟩
    have hlt := one_lt_length_splitOn hmem
    omega

end SvgAssets.Text
