/-
# SvgAssets.Proofs.Stylesheet.HiddenAddresses -- addresses through the passes over a style sheet

On its way through the passes of a style sheet a text has the braces of its placeholders hidden,
some of its selectors renamed, and braces put back for markers. None of this opens an address
(`Hides.hasOpenAddress_iff`, `Renames.hasOpenAddress`), as long as the new names do not begin one.
-/
import SvgAssets.Proofs.Markup.Addresses
import SvgAssets.Proofs.Stylesheet.Markers
import SvgAssets.Stylesheet.Reference

namespace SvgAssets.Stylesheet

open Text Markup

/-! ## Hiding and restoring -/

namespace Hides

/-- What is hidden of a text with hidden braces is hidden of the text. -/
theorem trans {s t u : Text} (hst : Hides s t) (htu : Hides t u) : Hides s u := by
  induction htu generalizing s with
  | nil => exact hst
  | @keep c t u htu ih =>
    generalize he : c :: t = t' at hst
    cases hst with
    | nil => cases he
    | keep d hst =>
      obtain ⟨rfl, rfl⟩ := List.cons.inj he
      exact .keep c (ih hst)
    | @opening s h hst =>
      -- The rest of the marker is kept, so its braces are hidden in the end too.
      obtain ⟨rfl, rfl⟩ := List.cons.inj he
      obtain ⟨a, b, rfl, ha, hb⟩ := exists_of_append (s := []) (c := 'o') (w := ['o', '_'])
        (forall_mem_of_all rfl) (ih (.keep 'o' (.keep 'o' (.keep '_' hst))))
      cases ha
      exact .opening hb
    | @closing s h hst =>
      obtain ⟨rfl, rfl⟩ := List.cons.inj he
      obtain ⟨a, b, rfl, ha, hb⟩ := exists_of_append (s := []) (c := 'O') (w := ['O', '_'])
        (forall_mem_of_all rfl) (ih (.keep 'O' (.keep 'O' (.keep '_' hst))))
      cases ha
      exact .closing hb
  | @opening t u htu ih =>
    cases hst with
    | keep _ hst =>
      cases hst with
      | keep _ hst => exact .opening (ih hst)
  | @closing t u htu ih =>
    cases hst with
    | keep _ hst =>
      cases hst with
      | keep _ hst => exact .closing (ih hst)

theorem restoreOpening (s : Text) : Hides (restoreOpening s) s := by
  induction s using replaceAll_induct '_' ['o', 'o', '_'] with
  | nil =>
    rw [Stylesheet.restoreOpening, replaceAll]
    exact .nil
  | found s ih =>
    rw [Stylesheet.restoreOpening, replaceAll_of_isPrefix]
    exact .opening ih
  | kept c s hnot ih =>
    rw [Stylesheet.restoreOpening, replaceAll_cons hnot]
    exact .keep c ih

theorem restoreClosing (s : Text) : Hides (restoreClosing s) s := by
  induction s using replaceAll_induct '_' ['O', 'O', '_'] with
  | nil =>
    rw [Stylesheet.restoreClosing, replaceAll]
    exact .nil
  | found s ih =>
    rw [Stylesheet.restoreClosing, replaceAll_of_isPrefix]
    exact .closing ih
  | kept c s hnot ih =>
    rw [Stylesheet.restoreClosing, replaceAll_cons hnot]
    exact .keep c ih

/-- A text is what it is restored to, with the braces that were put back hidden. -/
theorem restore (s : Text) : Hides (restorePlaceholders s) s :=
  (restoreClosing _).trans (restoreOpening s)

theorem length_le {s h : Text} (hs : Hides s h) : s.length ≤ h.length := by
  induction hs with
  | nil => exact Nat.le_refl _
  | keep c _ ih => exact Nat.succ_le_succ ih
  | opening _ ih =>
    simp only [openMarker, List.length_append, List.length_cons]
    omega
  | closing _ ih =>
    simp only [closeMarker, List.length_append, List.length_cons]
    omega

theorem mem_iff {s h : Text} (hs : Hides s h) {c : Char} (hinner : isInnerChar c = true)
    (hopening : c ∉ openMarker) (hclosing : c ∉ closeMarker) : c ∈ s ↔ c ∈ h := by
  constructor
  · intro hc
    obtain ⟨u, t, rfl⟩ := List.append_of_mem hc
    obtain ⟨a, b, rfl, -, -⟩ := exists_of_append_cons hinner hs
    simp
  · intro hc
    obtain ⟨a, b, rfl⟩ := List.append_of_mem hc
    obtain ⟨u, t, rfl, -, -⟩ := exists_of_hidden_append_cons hopening hclosing hs
    simp

/-- A stretch that shares no character with braces or markers stands in both texts or in none. -/
theorem infix_iff {s h : Text} (hs : Hides s h) {c : Char} {w : Text}
    (hinner : ∀ d ∈ c :: w, isInnerChar d = true)
    (hmarker : ∀ d ∈ c :: w, d ∉ openMarker ∧ d ∉ closeMarker) :
    c :: w <:+: s ↔ c :: w <:+: h := by
  constructor
  · rintro ⟨u, t, rfl⟩
    rw [List.append_assoc] at hs
    obtain ⟨a, b, rfl, -, -⟩ := exists_of_append hinner hs
    exact ⟨a, b, by rw [List.append_assoc]⟩
  · rintro ⟨a, b, rfl⟩
    rw [List.append_assoc] at hs
    obtain ⟨u, t, rfl, -, -⟩ := exists_of_hidden_append hmarker hs
    exact ⟨u, t, by rw [List.append_assoc]⟩

/-- Hiding braces neither opens nor closes an address. -/
theorem hasOpenAddress_iff {s h : Text} (hs : Hides s h) : HasOpenAddress s ↔ HasOpenAddress h := by
  constructor
  · rintro ⟨u, t, rfl, ht⟩
    obtain ⟨a, b, rfl, -, hb⟩ := exists_of_append (c := 'u') (w := ['r', 'l', '('])
      (forall_mem_of_all rfl) hs
    exact ⟨a, b, rfl, fun hc => ht ((hb.mem_iff rfl (by decide) (by decide)).2 hc)⟩
  · rintro ⟨a, b, rfl, hb⟩
    obtain ⟨u, t, rfl, -, ht⟩ := exists_of_hidden_append (c := 'u') (w := ['r', 'l', '('])
      (forall_mem_of_all rfl) hs
    exact ⟨u, t, rfl, fun hc => hb ((ht.mem_iff rfl (by decide) (by decide)).1 hc)⟩

end Hides

/-! ## Renaming -/

/-- The second text is the first with some selectors of renamed identifiers renamed. -/
inductive Renames (r : Renaming) : Text → Text → Prop
  | nil : Renames r [] []
  | keep (c : Char) {s t : Text} : Renames r s t → Renames r (c :: s) (c :: t)
  | selector {name s t : Text} : name ∈ r.ids → (∀ c ∈ name, IdSelector.isNameChar c = true) →
      Renames r s t → Renames r ('#' :: name ++ s) ('#' :: r.newName name ++ t)

namespace Renames

variable {r : Renaming}

theorem refl : (s : Text) → Renames r s s
  | [] => .nil
  | c :: s => .keep c (refl s)

theorem append {s t s' t' : Text} (h : Renames r s t) (h' : Renames r s' t') :
    Renames r (s ++ s') (t ++ t') := by
  induction h with
  | nil => exact h'
  | keep c _ ih => exact .keep c ih
  | selector hid hname _ ih =>
    rw [List.append_assoc, List.append_assoc]
    exact .selector hid hname ih

/-- A character that does not begin a selector was there before. -/
theorem exists_of_cons {s t : Text} {c : Char} (hc : c ≠ '#') (h : Renames r s (c :: t)) :
    ∃ s', s = c :: s' ∧ Renames r s' t := by
  generalize he : c :: t = u at h
  cases h with
  | nil => cases he
  | keep d h =>
    obtain ⟨rfl, rfl⟩ := List.cons.inj he
    exact ⟨_, rfl, h⟩
  | selector _ _ _ => exact absurd (List.cons.inj he).1 hc

/-- What is no part of a name is kept. -/
theorem mem_of_mem {s t : Text} (h : Renames r s t) {c : Char}
    (hc : IdSelector.isNameChar c = false) (hmem : c ∈ s) : c ∈ t := by
  induction h with
  | nil => exact hmem
  | keep d _ ih => exact List.mem_cons.2 ((List.mem_cons.1 hmem).imp_right ih)
  | @selector name s t _ hname _ ih =>
    rcases List.mem_append.1 hmem with hmem | hmem
    · rcases List.mem_cons.1 hmem with rfl | hmem
      · exact List.mem_append_left _ (List.mem_cons_self ..)
      · rw [hname c hmem] at hc
        cases hc
    · exact List.mem_append_right _ (ih hmem)

/-- Where no new name begins an address, renaming begins none. -/
theorem exists_of_append_addressStart {s t : Text} (h : Renames r s t)
    (hnew : ∀ name ∈ r.ids, (∀ c ∈ name, IdSelector.isNameChar c = true) →
      ¬ addressStart <:+: r.newName name)
    {a b : Text} (ht : t = a ++ (addressStart ++ b)) :
    ∃ u v, s = u ++ (addressStart ++ v) ∧ Renames r v b := by
  induction h generalizing a with
  | nil => simp [addressStart] at ht
  | @keep c s t hst ih =>
    cases a with
    | cons d a =>
      obtain ⟨rfl, hrest⟩ := List.cons.inj ht
      obtain ⟨u, v, rfl, hv⟩ := ih hrest
      exact ⟨c :: u, v, rfl, hv⟩
    | nil =>
      -- The address begins here, and its start is kept as a whole.
      obtain ⟨rfl, rfl⟩ := List.cons.inj ht
      clear ih
      obtain ⟨s₁, rfl, h₁⟩ := hst.exists_of_cons (by decide)
      obtain ⟨s₂, rfl, h₂⟩ := h₁.exists_of_cons (by decide)
      obtain ⟨s₃, rfl, h₃⟩ := h₂.exists_of_cons (by decide)
      exact ⟨[], s₃, rfl, h₃⟩
  | @selector name s t hid hname hst ih =>
    -- The new name ends with a brace, so the start of the address lies in it or behind it.
    obtain ⟨n, hn⟩ : ∃ n, '#' :: r.newName name = n ++ ['\x7d'] :=
      ⟨'#' :: (r.hash ++ '-' :: name ++ '-' :: '\x7b' :: '\x7b' :: r.instanceVariable ++ ['\x7d']),
        by simp [Renaming.newName]⟩
    rw [hn, List.append_assoc, List.singleton_append, ← List.append_assoc] at ht
    rcases exists_of_append_eq_append_cons ht.symm with ⟨s', hs', -⟩ | ⟨w, hw, rfl⟩
    · have hmem : addressStart <:+: '#' :: r.newName name := by
        rw [hn, hs']
        exact ⟨a, s' ++ ['\x7d'], by simp⟩
      rcases List.infix_cons_iff.1 hmem with hprefix | hwithin
      · exact absurd (List.cons_prefix_cons.1 hprefix).1 (by decide)
      · exact absurd hwithin (hnew name hid hname)
    · rcases exists_of_append_eq_append_cons hw with ⟨s', -, hs'⟩ | ⟨w', -, rfl⟩
      · have hbrace : '\x7d' ∈ addressStart := by
          rw [hs']
          simp
        exact absurd hbrace (by decide)
      · obtain ⟨u, v, rfl, hv⟩ := ih (List.append_assoc ..)
        exact ⟨'#' :: name ++ u, v, by rw [List.append_assoc], hv⟩

/-- Nor does it open one. -/
theorem hasOpenAddress {s t : Text} (h : Renames r s t)
    (hnew : ∀ name ∈ r.ids, (∀ c ∈ name, IdSelector.isNameChar c = true) →
      ¬ addressStart <:+: r.newName name)
    (hopen : HasOpenAddress t) : HasOpenAddress s := by
  obtain ⟨a, b, rfl, hb⟩ := hopen
  obtain ⟨u, v, rfl, hv⟩ := h.exists_of_append_addressStart hnew rfl
  exact ⟨u, v, rfl, fun hc => hb (hv.mem_of_mem (by decide) hc)⟩

end Renames

end SvgAssets.Stylesheet
