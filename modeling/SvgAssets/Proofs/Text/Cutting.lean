/-
# SvgAssets.Proofs.Text.Cutting -- scanning a text in parts

A scan of a text is the scan of its front and then that of its back when the cut between them falls
into no token. What this takes is said position by position (`CutsAt`), or, for a pattern whose
tokens can be read wherever their text stands, by the tokens alone: none may have a first part that
ends the front and a last part that begins the back (`cutsAt_of_exact`). Where a pattern looks at
what stands behind a token, a front is still scanned in the same way in front of all backs that look
the same to it (`exists_replaceFrom_append`).
-/
import SvgAssets.Proofs.Text.Scanning

namespace SvgAssets.Pattern

open Text

variable {α : Type} {p : Pattern α} {f : α → Text}

theorem behind_of_ne_nil {w : Text} (h : w ≠ []) (prev : Option Char) :
    behind prev w = w.getLast? := by
  rw [behind, List.getLast?_eq_some_getLast h]
  rfl

/-! ## One cut -/

/-- At no position of `u` does reading depend on whether `t` follows. -/
def CutsAt (p : Pattern α) (u t : Text) : Prop :=
  ∀ prev v, v ≠ [] → v <:+ u →
    p.read prev (v ++ t) = (p.read prev v).map fun (a, rest) => (a, rest ++ t)

theorem CutsAt.of_suffix {u v t : Text} (h : p.CutsAt u t) (hv : v <:+ u) : p.CutsAt v t :=
  fun prev w hne hw => h prev w hne (hw.trans hv)

/-- The front is scanned, and then the back. -/
theorem CutsAt.scanFrom_append {u t : Text} (h : p.CutsAt u t) (prev : Option Char) :
    p.scanFrom prev (u ++ t) = p.scanFrom prev u ++ p.scanFrom (behind prev u) t := by
  induction hn : u.length using Nat.strongRecOn generalizing u prev with
  | ind n ih =>
    cases u with
    | nil => rw [List.nil_append, scanFrom, List.nil_append, behind_nil]
    | cons c u =>
      have hread := h prev (c :: u) (by simp) (List.suffix_refl _)
      cases hfound : p.read prev (c :: u) with
      | none =>
        rw [hfound, Option.map_none, List.cons_append] at hread
        have hrest := ih u.length (by simp [← hn]) (h.of_suffix (List.suffix_cons c u)) (some c) rfl
        rw [List.cons_append, p.scanFrom_of_none hread, p.scanFrom_of_none hfound, hrest,
          behind_cons, List.cons_append]
      | some found =>
        obtain ⟨a, rest⟩ := found
        rw [hfound, Option.map_some] at hread
        have hu := p.exact hfound
        have hlt := p.length_lt hfound
        have hrest := ih rest.length (by rw [← hn]; exact hlt)
          (h.of_suffix ⟨p.text a, hu.symm⟩) (p.text a).getLast? rfl
        have hbehind : behind prev (c :: u) = behind (p.text a).getLast? rest := by
          rw [hu, behind_append, behind_of_ne_nil (p.nonempty hfound)]
        rw [p.scanFrom_of_read hread, p.scanFrom_of_read hfound, hrest, hbehind, List.cons_append]

theorem CutsAt.replaceFrom_append {u t : Text} (h : p.CutsAt u t) (prev : Option Char) :
    p.replaceFrom f prev (u ++ t) =
      p.replaceFrom f prev u ++ p.replaceFrom f (behind prev u) t := by
  rw [replaceFrom, replaceFrom, replaceFrom, h.scanFrom_append, List.flatMap_append]

/-- A pattern whose tokens are read wherever their text stands cuts where no token lies across. -/
theorem cutsAt_of_exact {proper : α → Prop}
    (hread : ∀ prev s a rest, p.read prev s = some (a, rest) ↔ proper a ∧ s = p.text a ++ rest)
    {u t : Text}
    (h : ∀ a w z, proper a → p.text a = w ++ z → w ≠ [] → z ≠ [] → w <:+ u → ¬ z <+: t) :
    p.CutsAt u t := by
  intro prev v hne hv
  cases hfound : p.read prev v with
  | some found =>
    obtain ⟨a, rest⟩ := found
    obtain ⟨hproper, rfl⟩ := (hread _ _ _ _).1 hfound
    rw [Option.map_some, List.append_assoc]
    exact (hread _ _ _ _).2 ⟨hproper, rfl⟩
  | none =>
    rw [Option.map_none, Option.eq_none_iff_forall_ne_some]
    rintro ⟨a, rest⟩ hacross
    obtain ⟨hproper, he⟩ := (hread _ _ _ _).1 hacross
    rcases List.append_eq_append_iff.1 he with ⟨z, ha, ht⟩ | ⟨w, hw, -⟩
    · by_cases hz : z = []
      · rw [hz, List.append_nil] at ha
        rw [(hread prev v a []).2 ⟨hproper, by rw [ha, List.append_nil]⟩] at hfound
        cases hfound
      · exact h a v z hproper ha hne hz hv ⟨rest, ht.symm⟩
    · rw [(hread prev v a w).2 ⟨hproper, hw⟩] at hfound
      cases hfound

/-! ## Backs that look the same -/

/-- A front is scanned in the same way in front of all backs of a kind, if at each of its positions
the same is read in front of all of them, and the token ends within the front. -/
theorem exists_replaceFrom_append {T : Text → Prop} {u : Text}
    (h : ∀ prev v, v ≠ [] → v <:+ u → (∀ t, T t → p.read prev (v ++ t) = none) ∨
      ∃ a rest, v = p.text a ++ rest ∧ p.text a ≠ [] ∧
        ∀ t, T t → p.read prev (v ++ t) = some (a, rest ++ t))
    (prev : Option Char) :
    ∃ x, ∀ t, T t → p.replaceFrom f prev (u ++ t) = x ++ p.replaceFrom f (behind prev u) t := by
  induction hn : u.length using Nat.strongRecOn generalizing u prev with
  | ind n ih =>
    cases u with
    | nil => exact ⟨[], fun t _ => rfl⟩
    | cons c u =>
      rcases h prev (c :: u) (by simp) (List.suffix_refl _) with hnone | ⟨a, rest, hu, hne, hsome⟩
      · obtain ⟨x, hx⟩ := ih u.length (by simp [← hn])
          (fun prev v hv hvu => h prev v hv (hvu.trans (List.suffix_cons c u))) (some c) rfl
        refine ⟨c :: x, fun t ht => ?_⟩
        have hread : p.read prev (c :: (u ++ t)) = none := hnone t ht
        rw [List.cons_append, p.replaceFrom_of_none hread, hx t ht, behind_cons, List.cons_append]
      · have hlength := congrArg List.length hu
        rw [List.length_append] at hlength
        have hpos := List.length_pos_iff.2 hne
        obtain ⟨x, hx⟩ := ih rest.length (by omega)
          (fun prev v hv hvu => h prev v hv (hvu.trans ⟨p.text a, hu.symm⟩)) (p.text a).getLast? rfl
        refine ⟨f a ++ x, fun t ht => ?_⟩
        have hbehind : behind prev (c :: u) = behind (p.text a).getLast? rest := by
          rw [hu, behind_append, behind_of_ne_nil hne]
        rw [p.replaceFrom_of_read (hsome t ht), hx t ht, hbehind, List.append_assoc]

/-! ## Stretches that are copied -/

/-- A silent stretch is copied. -/
theorem replaceFrom_append_of_silent {prev : Option Char} {w t : Text} (h : p.Silent prev w t) :
    p.replaceFrom f prev (w ++ t) = w ++ p.replaceFrom f (behind prev w) t := by
  rw [replaceFrom, p.scanFrom_append_of_silent h, List.flatMap_append, List.flatMap_map]
  exact congrArg (· ++ _) (List.flatMap_singleton' w)

/-- Where a pattern does not look back, it does not matter what stands in front. -/
theorem replaceFrom_congr (h : ∀ prev prev' s, p.read prev s = p.read prev' s)
    (prev prev' : Option Char) (s : Text) : p.replaceFrom f prev s = p.replaceFrom f prev' s := by
  rw [replaceFrom, replaceFrom, p.scanFrom_congr h prev prev']

/-- What holds between a token and its new text, and is kept when texts are put together, holds
between a text and what a pass makes of it. -/
theorem rel_replaceFrom {R : Text → Text → Prop} (nil : R [] [])
    (append : ∀ {s t s' t'}, R s t → R s' t' → R (s ++ s') (t ++ t')) (plain : ∀ c, R [c] [c])
    (token : ∀ {prev s a rest}, p.read prev s = some (a, rest) → R (p.text a) (f a))
    (prev : Option Char) (s : Text) : R s (p.replaceFrom f prev s) := by
  fun_induction scanFrom p prev s with
  | case1 =>
    rw [replaceFrom_nil]
    exact nil
  | case2 prev c s a rest h ih =>
    rw [p.replaceFrom_of_read h, p.exact h]
    exact append (token h) ih
  | case3 prev c s h ih =>
    rw [p.replaceFrom_of_none h]
    exact append (plain c) ih

/-- A pass that puts every token back changes nothing. -/
theorem replaceFrom_eq_self
    (h : ∀ {prev s a rest}, p.read prev s = some (a, rest) → f a = p.text a)
    (prev : Option Char) (s : Text) : p.replaceFrom f prev s = s := by
  refine (rel_replaceFrom (R := Eq) rfl ?_ (fun _ => rfl) (fun hread => (h hread).symm) prev s).symm
  rintro s t s' t' rfl rfl
  rfl

/-! ## One token after the other -/

/-- What is kept when one token gives way to its new text, wherever it stands, is kept by a pass. -/
theorem replace_of_step {P : Text → Prop} {s : Text}
    (step : ∀ u a v, a ∈ p.tokens s → P (u ++ (p.text a ++ v)) → P (u ++ (f a ++ v)))
    (h : P s) : P (p.replace f s) := by
  have hfrom : ∀ (prev : Option Char) (t : Text), (∀ a, .token a ∈ p.scanFrom prev t →
      a ∈ p.tokens s) → ∀ u, P (u ++ t) → P (u ++ p.replaceFrom f prev t) := by
    intro prev t
    fun_induction scanFrom p prev t with
    | case1 =>
      intro _ u hu
      rwa [replaceFrom_nil]
    | case2 prev c t a rest hread ih =>
      intro hmem u hu
      rw [p.replaceFrom_of_read hread, ← List.append_assoc]
      refine ih (fun b hb => hmem b (List.mem_cons_of_mem _ hb)) _ ?_
      rw [p.exact hread] at hu
      rw [List.append_assoc]
      exact step u a rest (hmem a (List.mem_cons_self ..)) hu
    | case3 prev c t hread ih =>
      intro hmem u hu
      have hrest := ih (fun b hb => hmem b (List.mem_cons_of_mem _ hb)) (u ++ [c])
        (by simpa using hu)
      rw [p.replaceFrom_of_none hread]
      simpa using hrest
  exact hfrom none s (fun a ha => List.mem_filterMap.2 ⟨.token a, ha, rfl⟩) [] h

end SvgAssets.Pattern
