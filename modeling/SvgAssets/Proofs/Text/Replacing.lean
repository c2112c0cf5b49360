/-
# SvgAssets.Proofs.Text.Replacing -- where a fixed text is found

Replacing a fixed text goes from left to right. Where no occurrence begins within a stretch, the
stretch is copied (`replaceAll_append`); an occurrence is replaced and reading goes on behind it.
What remains to be known is where a text occurs: not across a character that it does not hold
(`infix_append_cons_iff`). A text is broken where a fixed text first occurs
(`breakAt?_append_self`).
-/
import Mathlib.Data.List.Infix
import SvgAssets.Text.Basic

namespace SvgAssets.Text

/-! ## Occurrences -/

/-- A cut at a character falls behind a stretch at the start, or into it. -/
theorem exists_of_append_eq_append_cons {α : Type} {x y s t : List α} {c : α}
    (h : x ++ y = s ++ c :: t) :
    (∃ s', s = x ++ s' ∧ y = s' ++ c :: t) ∨ ∃ w, x = s ++ c :: w ∧ t = w ++ y := by
  rcases List.append_eq_append_iff.1 h with ⟨s', hs, hy⟩ | ⟨w, hx, ht⟩
  · exact .inl ⟨s', hs, hy⟩
  · cases w with
    | nil => exact .inl ⟨[], by simpa using hx.symm, by simpa using ht.symm⟩
    | cons d w =>
      rw [List.cons_append, List.cons.injEq] at ht
      obtain ⟨rfl, ht⟩ := ht
      exact .inr ⟨w, hx, ht⟩

theorem exists_of_append_eq {α : Type} {x y s t : List α} {c : α} (hc : c ∉ x)
    (h : x ++ y = s ++ c :: t) : ∃ s', s = x ++ s' ∧ y = s' ++ c :: t := by
  refine (exists_of_append_eq_append_cons h).resolve_right ?_
  rintro ⟨w, hx, -⟩
  exact hc (by simp [hx])

theorem prefix_of_prefix_append_cons {m x y : Text} {c : Char} (hc : c ∉ m)
    (h : m <+: x ++ c :: y) : m <+: x := by
  have hcut : x ++ [c] <+: x ++ c :: y := ⟨y, by simp⟩
  rcases List.prefix_or_prefix_of_prefix h hcut with h | h
  · rcases List.prefix_concat_iff.1 h with rfl | h
    · exact absurd (by simp) hc
    · exact h
  · exact absurd (h.subset (by simp)) hc

/-- A text does not occur across a character that it does not hold. -/
theorem infix_append_cons_iff {m x y : Text} {c : Char} (hc : c ∉ m) :
    m <:+: x ++ c :: y ↔ m <:+: x ∨ m <:+: y := by
  constructor
  · intro h
    induction x with
    | nil =>
      rcases List.infix_cons_iff.1 h with h | h
      · exact .inl (prefix_of_prefix_append_cons (x := []) hc h).isInfix
      · exact .inr h
    | cons d x ih =>
      rcases List.infix_cons_iff.1 h with h | h
      · exact .inl (prefix_of_prefix_append_cons (x := d :: x) hc h).isInfix
      · exact (ih h).imp_left fun h => h.trans (List.suffix_cons d x).isInfix
  · rintro (h | h)
    · exact h.trans (List.prefix_append x _).isInfix
    · exact h.trans ((List.suffix_cons c y).trans (List.suffix_append x _)).isInfix

/-- A text does not begin where its first character does not stand. -/
theorem infix_of_infix_append {m x y : Text} {c : Char} (hc : c ∉ x) (h : c :: m <:+: x ++ y) :
    c :: m <:+: y := by
  induction x with
  | nil => exact h
  | cons d x ih =>
    rw [List.mem_cons, not_or] at hc
    rcases List.infix_cons_iff.1 h with h | h
    · exact absurd (List.cons_prefix_cons.1 h).1 hc.1
    · exact ih hc.2 h

/-- A text does not end where its last character does not stand. -/
theorem prefix_of_prefix_append {m x y : Text} {c : Char} (hc : c ∉ y) (h : m ++ [c] <+: x ++ y) :
    m ++ [c] <+: x := by
  rcases List.prefix_or_prefix_of_prefix h (List.prefix_append x y) with hx | ⟨z, hz⟩
  · exact hx
  · -- What it has behind `x` is empty, or ends with its last character.
    rw [← hz, List.prefix_append_right_inj] at h
    rcases List.eq_nil_or_concat z with rfl | ⟨z', d, rfl⟩
    · rw [List.append_nil] at hz
      exact ⟨[], by rw [List.append_nil, hz]⟩
    · rw [List.concat_eq_append] at hz h
      rw [← List.append_assoc] at hz
      obtain ⟨-, hd⟩ := List.append_inj' hz rfl
      obtain rfl := List.singleton_inj.1 hd
      exact absurd (h.subset (by simp)) hc

/-- A text does not begin in front of its first character, if this character stands nowhere else in
it. -/
theorem prefix_of_prefix_append_head {m u t : Text} {c : Char} (hc : c ∉ m) (hu : u ≠ [])
    (ht : ∀ d ∈ t.head?, d = c) (h : c :: m <+: u ++ t) : c :: m <+: u := by
  cases t with
  | nil => rwa [List.append_nil] at h
  | cons d t =>
    obtain rfl := ht d rfl
    obtain ⟨e, u, rfl⟩ := List.exists_cons_of_ne_nil hu
    obtain ⟨rfl, hm⟩ := List.cons_prefix_cons.1 h
    exact List.cons_prefix_cons.2 ⟨rfl, prefix_of_prefix_append_cons hc hm⟩

/-- A text does not end within its own end, if its last character stands nowhere else in it. -/
theorem prefix_of_prefix_append_end {m u t : Text} {c : Char} (hc : c ∉ m) (hu : u ≠ [])
    (h : m ++ [c] <+: u ++ (m ++ c :: t)) : m ++ [c] <+: u := by
  have hlength : (m ++ [c]).length ≤ (u ++ m).length := by
    have hpos := List.length_pos_iff.2 hu
    simp only [List.length_append, List.length_singleton]
    omega
  refine prefix_of_prefix_append hc (List.prefix_of_prefix_length_le h ?_ hlength)
  rw [← List.append_assoc]
  exact List.prefix_append (u ++ m) _

/-- An occurrence at the end ends with the last character. -/
theorem infix_append_singleton {m w : Text} {c d : Char} (h : m ++ [c] <:+: w ++ [d]) :
    m ++ [c] <:+: w ∨ m <:+ w := by
  rcases List.infix_concat_iff.1 h with h | h
  · rcases List.suffix_concat_iff.1 h with h | ⟨t, ht, hw⟩
    · simp at h
    · obtain ⟨rfl, -⟩ := List.append_inj' ht rfl
      exact .inr hw
  · exact .inl h

/-! ## Breaks at a fixed text -/

/-- A text is broken at the first occurrence. -/
theorem not_isInfix_of_breakAt? {stop s v t : Text} (hne : stop ≠ [])
    (h : breakAt? stop s = some (v, t)) : ¬ stop <:+: v := by
  induction s generalizing v with
  | nil =>
    obtain ⟨r, -, he⟩ := Option.map_eq_some_iff.1 h
    cases he
    rwa [List.infix_nil]
  | cons c s ih =>
    rw [breakAt?] at h
    split at h
    · cases h
      rwa [List.infix_nil]
    · rename_i hafter
      obtain ⟨⟨v, t⟩, hbreak, he⟩ := Option.map_eq_some_iff.1 h
      cases he
      intro hmem
      refine ih hbreak ((List.infix_cons_iff.1 hmem).resolve_left ?_)
      rintro ⟨w, hw⟩
      have hs : c :: s = stop ++ (w ++ (stop ++ t)) := by
        rw [breakAt?_eq_some hbreak, ← List.append_assoc, hw]
        simp
      rw [after?_eq_some_iff.2 hs] at hafter
      cases hafter

/-- A text of which the last character stands nowhere else in it is found where it first stands. -/
theorem breakAt?_append_self {m x : Text} {c : Char} (hc : c ∉ m) (hx : ¬ m ++ [c] <:+: x)
    (t : Text) : breakAt? (m ++ [c]) (x ++ (m ++ c :: t)) = some (x, t) := by
  induction x with
  | nil =>
    have hself : after? (m ++ [c]) (m ++ c :: t) = some t := after?_eq_some_iff.2 (by simp)
    obtain ⟨d, s, hcons⟩ := List.exists_cons_of_ne_nil (show m ++ c :: t ≠ [] by simp)
    rw [List.nil_append, hcons]
    rw [hcons] at hself
    rw [breakAt?, hself]
  | cons d x ih =>
    have hnone : after? (m ++ [c]) (d :: (x ++ (m ++ c :: t))) = none := by
      rw [Option.eq_none_iff_forall_ne_some]
      intro r hr
      have hprefix : m ++ [c] <+: (d :: x) ++ (m ++ c :: t) := ⟨r, (after?_eq_some_iff.1 hr).symm⟩
      exact hx (prefix_of_prefix_append_end hc (by simp) hprefix).isInfix
    have hrest := ih fun hmem => hx (hmem.trans (List.suffix_cons d x).isInfix)
    rw [List.cons_append, breakAt?, hnone, hrest]
    rfl

/-! ## Replacing -/

section

variable {first : Char} {others new : Text}

theorem replaceAll_of_isPrefix (s : Text) :
    replaceAll first others new (first :: others ++ s) =
      new ++ replaceAll first others new s := by
  have hprefix : others.isPrefixOf (others ++ s) = true := by simp
  rw [List.cons_append, replaceAll, if_pos ⟨rfl, hprefix⟩, List.drop_left]

theorem replaceAll_cons {c : Char} {s : Text} (h : ¬ first :: others <+: c :: s) :
    replaceAll first others new (c :: s) = c :: replaceAll first others new s := by
  rw [replaceAll, if_neg]
  rintro ⟨rfl, hprefix⟩
  exact h (List.prefix_cons_inj c |>.2 (List.isPrefixOf_iff_prefix.1 hprefix))

/-- A stretch is copied when no occurrence begins in it. -/
theorem replaceAll_append {w t : Text}
    (h : ∀ v, v ≠ [] → v <:+ w → ¬ first :: others <+: v ++ t) :
    replaceAll first others new (w ++ t) = w ++ replaceAll first others new t := by
  induction w with
  | nil => rfl
  | cons c w ih =>
    have hnot : ¬ first :: others <+: c :: (w ++ t) := h (c :: w) (by simp) (List.suffix_refl _)
    rw [List.cons_append, replaceAll_cons hnot,
      ih fun v hne hv => h v hne (hv.trans (List.suffix_cons c w)), List.cons_append]

theorem replaceAll_eq_self {s : Text} (h : ¬ first :: others <:+: s) :
    replaceAll first others new s = s := by
  have hcopy : replaceAll first others new (s ++ []) =
      s ++ replaceAll first others new [] := by
    refine replaceAll_append fun v _ hv hm => ?_
    rw [List.append_nil] at hm
    exact h (hm.isInfix.trans hv.isInfix)
  rw [List.append_nil, replaceAll, List.append_nil] at hcopy
  exact hcopy

/-- A text is gone through by occurrences and by characters at which none begins. -/
@[elab_as_elim]
theorem replaceAll_induct (first : Char) (others : Text) {P : Text → Prop} (nil : P [])
    (found : ∀ s, P s → P (first :: others ++ s))
    (kept : ∀ c s, ¬ first :: others <+: c :: s → P s → P (c :: s)) (s : Text) : P s := by
  induction hn : s.length using Nat.strongRecOn generalizing s with
  | ind n ih =>
    cases s with
    | nil => exact nil
    | cons c s =>
      by_cases h : first :: others <+: c :: s
      · obtain ⟨t, ht⟩ := h
        rw [← ht]
        refine found t (ih t.length ?_ t rfl)
        rw [← hn, ← ht, List.cons_append, List.length_cons, List.length_append]
        omega
      · exact kept c s h (ih s.length (by simp [← hn]) s rfl)

/-- Replacing stops short of a character that the needle does not hold. -/
theorem replaceAll_append_cons {c : Char} (hc : c ∉ first :: others) (s t : Text) :
    replaceAll first others new (s ++ c :: t) =
      replaceAll first others new s ++ c :: replaceAll first others new t := by
  induction s using replaceAll_induct first others with
  | nil =>
    have hnot : ¬ first :: others <+: c :: t := fun h => by
      rw [← (List.cons_prefix_cons.1 h).1] at hc
      exact hc (List.mem_cons_self ..)
    rw [List.nil_append, replaceAll_cons hnot, replaceAll, List.nil_append]
  | found s ih =>
    rw [List.append_assoc, replaceAll_of_isPrefix, replaceAll_of_isPrefix, ih, List.append_assoc]
  | kept d s hnot ih =>
    have hnot' : ¬ first :: others <+: d :: (s ++ c :: t) := by
      rw [← List.cons_append]
      exact fun h => hnot (prefix_of_prefix_append_cons hc h)
    rw [List.cons_append, replaceAll_cons hnot', replaceAll_cons hnot, ih, List.cons_append]

/-- Two characters in a row are replaced piece by piece around a cut that they do not stand
across. -/
theorem replaceAll_append_of_not_across {second : Char} {s t : Text}
    (h : s.getLast? = some first → t.head? ≠ some second) :
    replaceAll first [second] new (s ++ t) =
      replaceAll first [second] new s ++ replaceAll first [second] new t := by
  induction s using replaceAll_induct first [second] with
  | nil => rw [List.nil_append, replaceAll, List.nil_append]
  | found s ih =>
    have hrest : s.getLast? = some first → t.head? ≠ some second := fun hlast =>
      h (by rw [List.getLast?_append, hlast, Option.some_or])
    rw [List.append_assoc, replaceAll_of_isPrefix, replaceAll_of_isPrefix, ih hrest,
      List.append_assoc]
  | kept d s hnot ih =>
    have hrest : s.getLast? = some first → t.head? ≠ some second := fun hlast =>
      h (by rw [List.getLast?_cons, hlast]; rfl)
    have hnot' : ¬ [first, second] <+: d :: (s ++ t) := by
      intro hprefix
      cases s with
      | nil =>
        rw [List.nil_append, List.cons_prefix_cons] at hprefix
        obtain ⟨rfl, u, rfl⟩ := hprefix
        exact h rfl rfl
      | cons e s =>
        rw [List.cons_append, List.cons_prefix_cons, List.cons_prefix_cons] at hprefix
        obtain ⟨rfl, rfl, -⟩ := hprefix
        exact hnot ⟨s, rfl⟩
    rw [List.cons_append, replaceAll_cons hnot', replaceAll_cons hnot, ih hrest, List.cons_append]

/-- Characters that replacing puts back for those it takes are kept, each in its place. -/
theorem filter_replaceAll {q : Char → Bool} (h : new.filter q = (first :: others).filter q)
    (s : Text) : (replaceAll first others new s).filter q = s.filter q := by
  induction s using replaceAll_induct first others with
  | nil => rw [replaceAll]
  | found s ih => rw [replaceAll_of_isPrefix, List.filter_append, List.filter_append, ih, h]
  | kept c s hnot ih => rw [replaceAll_cons hnot, List.filter_cons, List.filter_cons, ih]

theorem mem_of_mem_replaceAll (hnew : ∀ c ∈ new, c ∈ first :: others) {s : Text} {c : Char}
    (h : c ∈ replaceAll first others new s) : c ∈ s := by
  induction s using replaceAll_induct first others with
  | nil => rwa [replaceAll] at h
  | found s ih =>
    rw [replaceAll_of_isPrefix] at h
    rcases List.mem_append.1 h with h | h
    · exact List.mem_append_left s (hnew c h)
    · exact List.mem_append_right _ (ih h)
  | kept d s hnot ih =>
    rw [replaceAll_cons hnot] at h
    exact List.mem_cons.2 ((List.mem_cons.1 h).imp_right ih)

/-- One character is replaced wherever it stands. -/
theorem replaceAll_nil_eq_flatMap (s : Text) :
    replaceAll first [] new s = s.flatMap fun c => if c = first then new else [c] := by
  induction s with
  | nil => rw [replaceAll, List.flatMap_nil]
  | cons c s ih =>
    rw [List.flatMap_cons, ← ih]
    split
    · rename_i hc
      rw [hc]
      exact replaceAll_of_isPrefix s
    · rename_i hc
      exact replaceAll_cons fun h => hc (List.cons_prefix_cons.1 h).1.symm

theorem replaceAll_ne_nil (hnew : new ≠ []) {s : Text} (h : s ≠ []) :
    replaceAll first others new s ≠ [] := by
  induction s using replaceAll_induct first others with
  | nil => exact absurd rfl h
  | found s ih =>
    rw [replaceAll_of_isPrefix]
    simp [hnew]
  | kept c s hnot ih =>
    rw [replaceAll_cons hnot]
    simp

end

end SvgAssets.Text
