/-
# SvgAssets.Proofs.Stylesheet.ReferenceRenaming -- selectors follow, values stay

In a sheet of nested blocks `#v` is a selector in front of a block and a colour in a declaration.
Hiding the placeholders, renaming the selectors and restoring the placeholders is done stretch by
stretch, so it comes to renaming the selectors of the preludes as they are written
(`restore_renamePreludes_hide`): nothing in a declaration is touched. Addresses are renamed
afterwards, wherever they stand. This holds of every sheet in whose text no part of a marker stands,
except where two placeholders stand around two letters that make up a marker together with theirs
(`renameReferences_text_iff`).
-/
import Mathlib.Data.List.Infix
import SvgAssets.Proofs.Stylesheet.RuleBlocks

namespace SvgAssets.Stylesheet

open Text Markup

/-! ## Markers that could be made up -/

/-- The first three characters of each marker, and the last three. -/
def markerParts : List Text :=
  [['_', 'o', 'o'], ['o', 'o', '_'], ['_', 'O', 'O'], ['O', 'O', '_']]

/-- No such part stands in the text. -/
def HoldsNoMarkerPart (s : Text) : Prop := ∀ m ∈ markerParts, ¬ m <:+: s

instance (s : Text) : Decidable (HoldsNoMarkerPart s) :=
  inferInstanceAs (Decidable (∀ m ∈ markerParts, ¬ m <:+: s))

/-- Two placeholders stand around the letters between two markers. -/
def IsGlued (s : Text) : Prop :=
  ∃ p q : Placeholder, p.IsProper ∧ q.IsProper ∧ p.text ++ (['o', 'o'] ++ q.text) <:+: s

/-- Without a part of a marker only the letters between two placeholders can make one up. -/
theorem HoldsNoMarkerPart.isRestorable_iff {s : Text} (h : HoldsNoMarkerPart s) :
    IsRestorable s ↔ ¬ IsGlued s := by
  have hinner : ∀ {p : Placeholder} {m : Text}, p.text <:+: s → m <:+ p.inner → m <:+: s := by
    intro p m hp hm
    have hwithin : p.inner <:+: p.text := ⟨['\x7b', '\x7b'], ['\x7d', '\x7d'], rfl⟩
    exact hm.isInfix.trans (hwithin.trans hp)
  constructor
  · rintro hs ⟨p, q, hp, hq, hglued⟩
    exact hs.between p q hp hq hglued
  · intro hglued
    exact {
      no_open := fun hm => h ['_', 'o', 'o'] (by decide) (.trans ⟨[], ['_'], rfl⟩ hm)
      no_close := fun hm => h ['_', 'O', 'O'] (by decide) (.trans ⟨[], ['_'], rfl⟩ hm)
      inner_open := fun _ _ hp hm => h ['_', 'o', 'o'] (by decide) (hinner hp hm)
      inner_close := fun _ _ hp hm => h ['_', 'O', 'O'] (by decide) (hinner hp hm)
      before := fun p _ hm =>
        h ['_', 'o', 'o'] (by decide) ((List.prefix_append _ p.text).isInfix.trans hm)
      behind := fun p _ hm =>
        h ['o', 'o', '_'] (by decide) ((List.suffix_append p.text _).isInfix.trans hm)
      between := fun p q hp hq hm => hglued ⟨p, q, hp, hq, hm⟩ }

/-- Neither a marker nor the start of an address stands in the text. -/
structure IsQuiet (s : Text) : Prop where
  no_open : ¬ openMarker <:+: s
  no_close : ¬ closeMarker <:+: s
  no_address : ¬ addressStart <:+: s

instance (s : Text) : Decidable (IsQuiet s) :=
  decidable_of_iff (¬ openMarker <:+: s ∧ ¬ closeMarker <:+: s ∧ ¬ addressStart <:+: s)
    ⟨fun h => ⟨h.1, h.2.1, h.2.2⟩, fun h => ⟨h.no_open, h.no_close, h.no_address⟩⟩

/-- What is put into new names holds neither markers nor addresses, and no identifier looks like a
placeholder whose braces are hidden. -/
structure IsOrdinary (r : Renaming) : Prop where
  ids : ∀ v ∈ r.ids, ¬ openMarker <:+: v
  hash : IsQuiet r.hash
  instanceVariable : IsQuiet r.instanceVariable

instance (r : Renaming) : Decidable (IsOrdinary r) :=
  decidable_of_iff
    ((∀ v ∈ r.ids, ¬ openMarker <:+: v) ∧ IsQuiet r.hash ∧ IsQuiet r.instanceVariable)
    ⟨fun h => ⟨h.1, h.2.1, h.2.2⟩, fun h => ⟨h.ids, h.hash, h.instanceVariable⟩⟩

section

variable {r : Renaming} {v : Text}

/-- A new name comes back as it is. -/
theorem IsOrdinary.restore_newName (hr : IsOrdinary r) (hopen : ¬ openMarker <:+: v)
    (hclose : ¬ closeMarker <:+: v) : restorePlaceholders (r.newName v) = r.newName v := by
  rw [restore_eq_self_iff, infix_newName_iff (by decide) (by decide) (by decide) (by decide),
    infix_newName_iff (by decide) (by decide) (by decide) (by decide)]
  exact ⟨not_or.2 ⟨hr.hash.no_open, not_or.2 ⟨hopen, hr.instanceVariable.no_open⟩⟩,
    not_or.2 ⟨hr.hash.no_close, not_or.2 ⟨hclose, hr.instanceVariable.no_close⟩⟩⟩

/-- No new name begins an address. -/
theorem IsOrdinary.not_infix_newName (hr : IsOrdinary r)
    (hv : ∀ c ∈ v, IdSelector.isNameChar c = true) : ¬ addressStart <:+: r.newName v := by
  rw [infix_newName_iff (by decide) (by decide) (by decide) (by decide)]
  refine not_or.2 ⟨hr.hash.no_address, not_or.2 ⟨fun hm => ?_, hr.instanceVariable.no_address⟩⟩
  exact absurd (hv '(' (hm.subset (by decide))) (by decide)

end

/-! ## Selectors behind the markers -/

section

variable (r : Renaming) {v t : Text}

theorem renameSelectors_eq_self {s : Text} (h : '#' ∉ s) : renameSelectors r s = s := by
  have hall := renameSelectors_append_of_notMem r h []
  rwa [List.append_nil, renameSelectors_nil, List.append_nil] at hall

/-- The selector of a renamed identifier is renamed. -/
theorem renameSelectors_of_mem (hv : ∀ c ∈ v, IdSelector.isNameChar c = true)
    (ht : ∀ c ∈ t.head?, IdSelector.isNameChar c = false)
    (hstart : IdSelector.startsName v = true) (hid : v ∈ r.ids) :
    renameSelectors r ('#' :: (v ++ t)) = '#' :: (r.newName v ++ renameSelectors r t) := by
  rw [renameSelectors_selector r hv ht, if_pos hstart, renamedSelector, if_pos hid]
  rfl

/-- A hash in front of anything else is passed over. -/
theorem renameSelectors_of_not (hv : ∀ c ∈ v, IdSelector.isNameChar c = true)
    (ht : ∀ c ∈ t.head?, IdSelector.isNameChar c = false)
    (h : ¬ (IdSelector.startsName v = true ∧ v ∈ r.ids)) :
    renameSelectors r ('#' :: (v ++ t)) = '#' :: renameSelectors r (v ++ t) := by
  rw [renameSelectors_selector r hv ht,
    renameSelectors_append_of_notMem r (IdSelector.hash_notMem hv)]
  split
  · rename_i hstart
    rw [renamedSelector, if_neg fun hid => h ⟨hstart, hid⟩]
    rfl
  · rfl

/-- So is one in front of a name that goes on with a marker. -/
theorem renameSelectors_cons_hidden {r : Renaming} (hr : IsOrdinary r)
    (hv : ∀ c ∈ v, IdSelector.isNameChar c = true) (t : Text) :
    renameSelectors r ('#' :: (v ++ (openMarker ++ t))) =
      '#' :: renameSelectors r (v ++ (openMarker ++ t)) := by
  cases hrun : run IdSelector.isNameChar t with
  | mk name rest =>
    obtain ⟨rfl, hname, hrest⟩ := run_eq_iff.1 hrun
    have hlong : ∀ c ∈ v ++ (openMarker ++ name), IdSelector.isNameChar c = true :=
      List.forall_mem_append.2 ⟨hv, List.forall_mem_append.2 ⟨forall_mem_of_all rfl, hname⟩⟩
    have hnot := renameSelectors_of_not r hlong hrest fun h => hr.ids _ h.2 ⟨v, name, by simp⟩
    simpa using hnot

end

/-- A text in front of a block: placeholders may stand in it, but none right behind the name of a
selector, and no address begins in it. -/
structure IsPlainPrelude (x : Text) : Prop where
  ne_nil : x ≠ []
  filled : IsFilled x
  no_address : ¬ addressStart <:+: x
  apart : ∀ v, (∀ c ∈ v, IdSelector.isNameChar c = true) → IdSelector.startsName v = true →
    ∀ p : Placeholder, p.IsProper → ¬ '#' :: (v ++ p.text) <:+: x

/-- Where selectors and placeholders do not stand in one prelude, none stands behind the other. -/
theorem IsPlainPrelude.of_notMem {x : Text} (hne : x ≠ []) (hfilled : IsFilled x)
    (haddress : ¬ addressStart <:+: x) (h : '#' ∉ x ∨ '\x7b' ∉ x) : IsPlainPrelude x where
  ne_nil := hne
  filled := hfilled
  no_address := haddress
  apart v _ _ p _ hm := by
    rcases h with h | h
    · exact h (hm.subset (List.mem_cons_self ..))
    · exact h (hm.subset (by simp [Placeholder.text]))

/-- The name behind a hash, up to where it ends. -/
theorem exists_eq_append_name (s : Text) :
    ∃ v t, s = v ++ t ∧ (∀ c ∈ v, IdSelector.isNameChar c = true) ∧
      ∀ c ∈ t.head?, IdSelector.isNameChar c = false :=
  ⟨_, _, run_eq_iff.1 (show run IdSelector.isNameChar s = (_, _) from rfl)⟩

/-- No marker goes across a hash. -/
theorem restore_renameSelectors_hash (r : Renaming) {w : Text} (hw : '#' ∉ w) (t : Text) :
    restorePlaceholders (renameSelectors r (w ++ '#' :: t)) =
      restorePlaceholders w ++ restorePlaceholders (renameSelectors r ('#' :: t)) := by
  obtain ⟨t', ht⟩ := head?_renameSelectors r '#' t
  rw [renameSelectors_append_of_notMem r hw, ht, restore_append_cons (by decide)]

/-- Behind a name that has come to its end no marker goes on. -/
theorem restore_append_of_head? {s t : Text} (ht : ∀ c ∈ t.head?, IdSelector.isNameChar c = false) :
    restorePlaceholders (s ++ t) = restorePlaceholders s ++ restorePlaceholders t := by
  cases t with
  | nil => rw [restore_nil, List.append_nil, List.append_nil]
  | cons c t =>
    refine restore_append_cons (not_mem_marker_of_not_isWordChar ?_) s t
    have hc := ht c rfl
    rw [IdSelector.isNameChar, Bool.or_eq_false_iff] at hc
    exact hc.1

theorem head?_renameSelectors_eq (r : Renaming) (s : Text) :
    (renameSelectors r s).head? = s.head? := by
  cases s with
  | nil => rw [renameSelectors_nil]
  | cons c s =>
    obtain ⟨t, ht⟩ := head?_renameSelectors r c s
    rw [ht]
    rfl

section

variable {r : Renaming} {v t : Text}

/-- At a hash: where the name comes to the same end with the placeholders hidden, it is looked up as
it is written. -/
theorem IsOrdinary.restore_renameSelectors_name (hr : IsOrdinary r)
    (hv : ∀ c ∈ v, IdSelector.isNameChar c = true)
    (ht : ∀ c ∈ t.head?, IdSelector.isNameChar c = false)
    (hhead : ∀ c ∈ (hidePlaceholders t).head?, IdSelector.isNameChar c = false)
    (hrestored : IsRestorable (v ++ t))
    (hbehind : restorePlaceholders (renameSelectors r (hidePlaceholders t)) = renameSelectors r t)
    (hpassed : restorePlaceholders (renameSelectors r (v ++ hidePlaceholders t)) =
      renameSelectors r (v ++ t)) :
    restorePlaceholders (renameSelectors r ('#' :: (v ++ hidePlaceholders t))) =
      renameSelectors r ('#' :: (v ++ t)) := by
  by_cases h : IdSelector.startsName v = true ∧ v ∈ r.ids
  · have hname := hrestored.of_isInfix (List.prefix_append v t).isInfix
    have hends : ∀ c ∈ (renameSelectors r (hidePlaceholders t)).head?,
        IdSelector.isNameChar c = false := by
      rwa [head?_renameSelectors_eq]
    rw [renameSelectors_of_mem r hv ht h.1 h.2, renameSelectors_of_mem r hv hhead h.1 h.2,
      restore_cons_of_ne (by decide), restore_append_of_head? hends, hbehind,
      hr.restore_newName hname.no_open hname.no_close]
  · rw [renameSelectors_of_not r hv ht h, renameSelectors_of_not r hv hhead h,
      restore_cons_of_ne (by decide), hpassed]

/-- At a hash: the name is looked up as it is written, if it is no selector's in front of a
placeholder. -/
theorem IsOrdinary.restore_renameSelectors_append (hr : IsOrdinary r)
    (hv : ∀ c ∈ v, IdSelector.isNameChar c = true)
    (ht : ∀ c ∈ t.head?, IdSelector.isNameChar c = false) (hfilled : IsFilled t)
    (hrestored : IsRestorable (v ++ t))
    (hapart : IdSelector.startsName v = true → ∀ p : Placeholder, p.IsProper → ¬ p.text <+: t)
    (hbehind : restorePlaceholders (renameSelectors r (hidePlaceholders t)) = renameSelectors r t)
    (hpassed : restorePlaceholders (renameSelectors r (v ++ hidePlaceholders t)) =
      renameSelectors r (v ++ t)) :
    restorePlaceholders (renameSelectors r ('#' :: (v ++ hidePlaceholders t))) =
      renameSelectors r ('#' :: (v ++ t)) := by
  cases hfilled with
  | nil =>
    refine hr.restore_renameSelectors_name hv ht ?_ hrestored hbehind hpassed
    rw [hide_nil]
    exact ht
  | char hc _ =>
    refine hr.restore_renameSelectors_name hv ht ?_ hrestored hbehind hpassed
    rw [hide_cons_of_ne (ne_brace_of_isInnerChar hc)]
    exact ht
  | @placeholder p s hp hhash _ =>
    -- With its braces hidden the placeholder makes the name a longer one, which no identifier has.
    have hhidden : hidePlaceholders (p.text ++ s) =
        openMarker ++ (p.inner ++ closeMarker ++ hidePlaceholders s) := by
      rw [hide_text_append hp, Placeholder.hidden]
      simp
    have hnot : ¬ (IdSelector.startsName v = true ∧ v ∈ r.ids) :=
      fun h => hapart h.1 p hp (List.prefix_append p.text s)
    rw [hhidden] at hpassed ⊢
    rw [renameSelectors_cons_hidden hr hv, restore_cons_of_ne (by decide), hpassed,
      renameSelectors_of_not r hv ht hnot]

end

/-- **Selectors are renamed behind the markers as they would be renamed in the text.** -/
theorem IsFilled.restore_renameSelectors_hide {r : Renaming} (hr : IsOrdinary r) {x : Text}
    (hx : IsFilled x) (hrestored : IsRestorable x)
    (hapart : ∀ v, (∀ c ∈ v, IdSelector.isNameChar c = true) → IdSelector.startsName v = true →
      ∀ p : Placeholder, p.IsProper → ¬ '#' :: (v ++ p.text) <:+: x) :
    restorePlaceholders (renameSelectors r (hidePlaceholders x)) = renameSelectors r x := by
  induction hn : x.length using Nat.strongRecOn generalizing x with
  | ind n ih =>
    subst hn
    have hback : ∀ {u y : Text}, x = u ++ y → u ≠ [] → IsFilled y →
        restorePlaceholders (renameSelectors r (hidePlaceholders y)) = renameSelectors r y := by
      rintro u y rfl hu hfilled
      have hpos := List.length_pos_iff.2 hu
      have hsuffix : y <:+: u ++ y := (List.suffix_append u y).isInfix
      refine ih y.length ?_ hfilled (hrestored.of_isInfix hsuffix) ?_ rfl
      · rw [List.length_append]
        omega
      · exact fun v hv hstart p hp hm => hapart v hv hstart p hp (hm.trans hsuffix)
    by_cases hhash : '#' ∈ x
    · -- Up to the first hash nothing is renamed.
      obtain ⟨w, y, rfl, hw⟩ := List.eq_append_cons_of_mem hhash
      obtain ⟨hw', hy⟩ := hx.of_append_hash
      have hhidden : '#' ∉ hidePlaceholders w := by
        rwa [← (Hides.hide w).mem_iff rfl (by decide) (by decide)]
      have hfront : restorePlaceholders (hidePlaceholders w) = w :=
        (hrestored.of_isInfix (List.prefix_append w _).isInfix).restore_hide
      rw [hw'.hide_append, hide_cons_of_ne (by decide), restore_renameSelectors_hash r hhidden,
        hfront, renameSelectors_append_of_notMem r hw]
      refine congrArg (w ++ ·) ?_
      obtain ⟨v, t, rfl, hv, ht⟩ := exists_eq_append_name y
      have hinner : ∀ c ∈ v, isInnerChar c = true :=
        fun c hc => IdSelector.isInnerChar_of_isNameChar (hv c hc)
      have hkept : hidePlaceholders (v ++ t) = v ++ hidePlaceholders t :=
        hide_append_of_notMem (fun hc => absurd (hinner _ hc) (by decide)) t
      have hpassed := hback (u := w ++ ['#']) (y := v ++ t) (by simp) (by simp) hy
      have hbehind := hback (u := w ++ '#' :: v) (y := t) (by simp) (by simp) (hy.of_append hinner)
      rw [hkept] at hpassed ⊢
      refine hr.restore_renameSelectors_append hv ht (hy.of_append hinner) ?_ ?_ hbehind hpassed
      · exact hrestored.of_isInfix ((List.suffix_cons '#' _).trans (List.suffix_append w _)).isInfix
      · rintro hstart p hp ⟨u, rfl⟩
        exact hapart v hv hstart p hp ⟨w, u, by simp⟩
    · have hhidden : '#' ∉ hidePlaceholders x := by
        rwa [← (Hides.hide x).mem_iff rfl (by decide) (by decide)]
      rw [renameSelectors_eq_self r hhidden, renameSelectors_eq_self r hhash,
        hrestored.restore_hide]

/-! ## Addresses -/

/-- Renaming selectors begins no address. -/
theorem IsOrdinary.not_infix_renameSelectors {r : Renaming} (hr : IsOrdinary r) {x : Text}
    (hx : ¬ addressStart <:+: x) : ¬ addressStart <:+: renameSelectors r x := by
  rintro ⟨a, b, hm⟩
  rw [List.append_assoc] at hm
  obtain ⟨u, v, rfl, -⟩ := (renames_renameSelectors r x).exists_of_append_addressStart
    (fun _ _ hname => hr.not_infix_newName hname) hm.symm
  exact hx ⟨u, v, by rw [List.append_assoc]⟩

/-! ## Nothing renamed -/

section

variable {r : Renaming} (hids : ∀ v ∈ r.ids, ' ' ∈ v)

include hids

/-- No selector has a name with a space in it. -/
theorem renameSelectors_of_blank (s : Text) : renameSelectors r s = s := by
  refine Pattern.replaceFrom_eq_self (fun {_ _ i _} h => ?_) none s
  have hname := IdSelector.isNameChar_of_read h
  exact if_neg fun hid => absurd (hname _ (hids _ hid)) (by decide)

theorem renamePreludes_of_blank (s : Text) : renamePreludes r none s = s :=
  Pattern.replaceFrom_eq_self
    (fun {_ _ p _} _ => congrArg (p.brace.toList ++ ·) (renameSelectors_of_blank hids p.selectors))
    none s

/-- Nor has an address such a target. -/
theorem applyToAddresses_of_blank (s : Text) : r.applyToAddresses s = s := by
  refine Pattern.replaceFrom_eq_self (fun {_ _ u _} h => ?_) none s
  have htarget := (UrlReference.isProper_of_read h).target_chars
  exact if_neg fun hid => absurd (htarget _ (hids _ hid)) (by decide)

end

/-! ## Whole sheets -/

namespace RuleSheet

/-- A sheet of rules nested to any depth: its braces delimit blocks or belong to placeholders. -/
structure IsPlain (s : RuleSheet) : Prop where
  preludes : ∀ x ∈ s.stretches, x.opens = true → IsPlainPrelude x.text
  values : ∀ x ∈ s.stretches, x.opens = false → IsFilled x.text
  rest : IsFilled s.rest

/-- No address is open at the end of a stretch of declarations. -/
structure ClosesAddresses (s : RuleSheet) : Prop where
  values : ∀ x ∈ s.stretches, x.opens = false → ¬ HasOpenAddress x.text
  rest : ¬ HasOpenAddress s.rest

/-- No address begins in the declarations. -/
structure HoldsNoAddress (s : RuleSheet) : Prop where
  values : ∀ x ∈ s.stretches, x.opens = false → ¬ addressStart <:+: x.text
  rest : ¬ addressStart <:+: s.rest

section

variable {s : RuleSheet} (h : s.IsPlain)

include h

theorem IsPlain.areFilled : AreFilled s.stretches := by
  intro x hx
  cases hopens : x.opens with
  | true => exact ⟨(h.preludes x hx hopens).filled, fun _ => (h.preludes x hx hopens).ne_nil⟩
  | false => exact ⟨h.values x hx hopens, fun he => by cases he⟩

/-- **Hiding, renaming and restoring comes to renaming the selectors of the preludes.** -/
theorem IsPlain.restore_renamePreludes_hide {r : Renaming} (hr : IsOrdinary r)
    (hrestored : IsRestorable s.text) :
    restorePlaceholders (renamePreludes r none (hidePlaceholders s.text)) =
      (s.map (renameSelectors r) id).text := by
  have hfilled := h.areFilled
  have hchars : ∀ x ∈ (s.map hidePlaceholders hidePlaceholders).stretches,
      ∀ c ∈ x.text, isInnerChar c = true := by
    intro x hx
    rw [stretches_map] at hx
    obtain ⟨y, hy, rfl⟩ := List.mem_map.1 hx
    rw [RuleStretch.map, ite_self]
    exact (hfilled y hy).1.isInnerChar_of_mem_hide
  rw [hide_text hfilled h.rest, renamePreludes_text r hchars h.rest.isInnerChar_of_mem_hide,
    restore_text, text_map_map, text_map_map]
  refine text_map_congr (fun x hx hopens => ?_) (fun x hx _ => ?_) ?_
  · have hprelude := h.preludes x hx hopens
    exact hprelude.filled.restore_renameSelectors_hide hr (hrestored.of_isInfix (infix_text hx))
      hprelude.apart
  · exact (hrestored.of_isInfix (infix_text hx)).restore_hide
  · exact (hrestored.of_isInfix s.rest_infix_text).restore_hide

/-- Where every address is closed in its stretch, addresses are renamed stretch by stretch. -/
theorem IsPlain.applyToAddresses_text_map {r : Renaming} (hr : IsOrdinary r)
    (hclosed : s.ClosesAddresses) :
    r.applyToAddresses (s.map (renameSelectors r) id).text =
      (s.map (renameSelectors r) r.applyToAddresses).text := by
  have hpass : r.applyToAddresses (s.map (renameSelectors r) id).text =
      ((s.map (renameSelectors r) id).map id r.applyToAddresses).text := by
    refine pass_text (fun x hx t => ?_) rfl
    rw [stretches_map] at hx
    obtain ⟨⟨text, opens⟩, hy, rfl⟩ := List.mem_map.1 hx
    have hstep : ∀ {w : Text} {c : Char}, ¬ HasOpenAddress w → c ∉ ['u', 'r', 'l', '('] →
        r.applyToAddresses (w ++ c :: t) = r.applyToAddresses w ++ c :: r.applyToAddresses t := by
      intro w c hw hc
      rw [List.mem_cons, not_or] at hc
      rw [r.applyToAddresses_append hw (by rintro d ⟨⟩; exact hc.2), r.applyToAddresses_cons hc.1]
    cases opens with
    | true =>
      have hnone := hr.not_infix_renameSelectors (h.preludes _ hy rfl).no_address
      refine (hstep (c := '\x7b') (not_hasOpenAddress_of_not_isInfix hnone) (by decide)).trans ?_
      exact congrArg (· ++ _) (r.applyToAddresses_eq_self hnone)
    | false => exact hstep (c := '\x7d') (hclosed.values _ hy rfl) (by decide)
  rw [hpass, text_map_map]
  rfl

end

section

variable {s : RuleSheet} (h : s.HoldsNoAddress)

include h

theorem HoldsNoAddress.closesAddresses : s.ClosesAddresses where
  values x hx hopens := not_hasOpenAddress_of_not_isInfix (h.values x hx hopens)
  rest := not_hasOpenAddress_of_not_isInfix h.rest

/-- Declarations without addresses are as they were. -/
theorem HoldsNoAddress.text_map (r : Renaming) :
    (s.map (renameSelectors r) r.applyToAddresses).text = (s.map (renameSelectors r) id).text :=
  text_map_congr (fun _ _ _ => rfl)
    (fun x hx hopens => r.applyToAddresses_eq_self (h.values x hx hopens))
    (r.applyToAddresses_eq_self h.rest)

end

/-- A sheet in which no selector is renamed is as it was. -/
theorem text_map_of_blank {r : Renaming} (hids : ∀ v ∈ r.ids, ' ' ∈ v) (s : RuleSheet) :
    (s.map (renameSelectors r) id).text = s.text := by
  rw [← text_map_id s]
  exact text_map_congr (fun x _ _ => renameSelectors_of_blank hids x.text) (fun _ _ _ => rfl) rfl

end RuleSheet

/-! ## What is renamed -/

/-- **Selectors follow, values stay.** In a sheet of rules nested to any depth, in whose text no
part of a marker stands, the selectors of renamed identifiers are renamed in the preludes, then
addresses wherever they stand, and nothing else: where every address is closed in its stretch,
addresses in the declarations; where none begins there, the declarations are kept as they are, with
every colour in them that looks like a selector. This holds, whatever is renamed, exactly if no two
placeholders stand around the letters that their markers make a third one of. -/
theorem renameReferences_text_iff {s : RuleSheet} (hs : s.IsPlain)
    (hparts : HoldsNoMarkerPart s.text) :
    (∀ r, IsOrdinary r →
      renameReferences r s.text = r.applyToAddresses (s.map (renameSelectors r) id).text ∧
      (s.ClosesAddresses →
        renameReferences r s.text = (s.map (renameSelectors r) r.applyToAddresses).text) ∧
      (s.HoldsNoAddress → renameReferences r s.text = (s.map (renameSelectors r) id).text)) ↔
    ¬ IsGlued s.text := by
  constructor
  · -- Where nothing is renamed, what is hidden has to come back.
    intro h
    have hids : ∀ v ∈ [[' ']], ' ' ∈ v := by decide
    have hr : IsOrdinary ⟨[[' ']], [], []⟩ := by decide
    have hkept := (h _ hr).1
    rw [renameReferences_eq (by simp), renamePreludes_of_blank hids, applyToAddresses_of_blank hids,
      applyToAddresses_of_blank hids, RuleSheet.text_map_of_blank hids] at hkept
    exact hparts.isRestorable_iff.1 (isRestorable_of_restore_hide hkept)
  · intro hglued r hr
    have hrestored := hparts.isRestorable_iff.2 hglued
    have hwhole : renameReferences r s.text =
        r.applyToAddresses (s.map (renameSelectors r) id).text := by
      by_cases hids : r.ids = []
      · have hnone : ∀ v ∈ r.ids, ' ' ∈ v := by simp [hids]
        rw [applyToAddresses_of_blank hnone, RuleSheet.text_map_of_blank hnone]
        simp [renameReferences, hids]
      · rw [renameReferences_eq hids, hs.restore_renamePreludes_hide hr hrestored]
    have hclosed : s.ClosesAddresses →
        renameReferences r s.text = (s.map (renameSelectors r) r.applyToAddresses).text := by
      intro hclosed
      rw [hwhole, hs.applyToAddresses_text_map hr hclosed]
    refine ⟨hwhole, hclosed, fun hnone => ?_⟩
    rw [hclosed hnone.closesAddresses, hnone.text_map]

/-- A rule for wide screens. -/
def wideScreenSheet : RuleSheet :=
  ⟨[.mk "@media (min-width:\x7b\x7bw\x7d\x7d)".toList
    [.mk "#a:hover".toList [] "fill:#a;stroke:url(#a)".toList] []], []⟩

/-- In a rule for wide screens the selector and the address are renamed, the colour is not. -/
theorem renameReferences_text_wideScreen :
    renameReferences ⟨["a".toList], "h1".toList, "uuid".toList⟩
        ("@media (min-width:\x7b\x7bw\x7d\x7d)" ++
          "\x7b#a:hover\x7bfill:#a;stroke:url(#a)\x7d\x7d").toList =
      ("@media (min-width:\x7b\x7bw\x7d\x7d)\x7b#h1-a-\x7b\x7buuid\x7d\x7d:hover" ++
        "\x7bfill:#a;stroke:url(#h1-a-\x7b\x7buuid\x7d\x7d)\x7d\x7d").toList := by
  have hstretches : wideScreenSheet.stretches =
      [⟨"@media (min-width:\x7b\x7bw\x7d\x7d)".toList, true⟩, ⟨"#a:hover".toList, true⟩,
        ⟨"fill:#a;stroke:url(#a)".toList, false⟩, ⟨[], false⟩] := rfl
  have hfilled : IsFilled "@media (min-width:\x7b\x7bw\x7d\x7d)".toList :=
    (IsFilled.of_chars (s := "@media (min-width:".toList) (forall_mem_of_all rfl)).append
      (.placeholder (p := ⟨"w".toList⟩) (s := ")".toList) (forall_mem_of_all rfl)
        (by decide +kernel) (.of_chars (forall_mem_of_all rfl)))
  have hplain : wideScreenSheet.IsPlain := by
    refine ⟨?_, ?_, .nil⟩
    · rw [hstretches]
      refine List.forall_mem_cons.2 ⟨fun _ => ?_, List.forall_mem_cons.2 ⟨fun _ => ?_, by simp⟩⟩
      · exact .of_notMem (by simp) hfilled (by decide +kernel) (.inl (by decide +kernel))
      · exact .of_notMem (by simp) (.of_chars (forall_mem_of_all rfl)) (by decide +kernel)
          (.inr (by decide +kernel))
    · rw [hstretches]
      refine List.forall_mem_cons.2 ⟨nofun, List.forall_mem_cons.2 ⟨nofun,
        List.forall_mem_cons.2 ⟨fun _ => ?_, List.forall_mem_singleton.2 fun _ => .nil⟩⟩⟩
      exact .of_chars (forall_mem_of_all rfl)
  have hclosed : wideScreenSheet.ClosesAddresses := by
    have hnil : ¬ HasOpenAddress [] := not_hasOpenAddress_of_not_isInfix (by decide)
    refine ⟨?_, hnil⟩
    rw [hstretches]
    refine List.forall_mem_cons.2 ⟨nofun, List.forall_mem_cons.2 ⟨nofun,
      List.forall_mem_cons.2 ⟨fun _ => ?_, List.forall_mem_singleton.2 fun _ => hnil⟩⟩⟩
    exact not_hasOpenAddress_append_cons hnil "fill:#a;stroke:url(#a".toList
  have hglued : ¬ IsGlued wideScreenSheet.text := by
    rintro ⟨p, q, -, -, hm⟩
    have hletters : ['o', 'o'] <:+: wideScreenSheet.text := .trans ⟨p.text, q.text, by simp⟩ hm
    exact absurd hletters (by decide +kernel)
  have hrenamed := (renameReferences_text_iff hplain (by decide +kernel)).2 hglued
    ⟨["a".toList], "h1".toList, "uuid".toList⟩ (by decide +kernel)
  exact (hrenamed.2.1 hclosed).trans (by decide +kernel)

/-- Between two placeholders these letters are read as a marker, together with the last character of
the marker in front of them and the first of the one behind: nothing is to be renamed, and the text
is changed. -/
theorem renameReferences_text_glued :
    IsOrdinary ⟨["b".toList], "h1".toList, "uuid".toList⟩ ∧
      ∃ s : RuleSheet, s.text = ".a\x7bfill:\x7b\x7bx\x7d\x7doo\x7b\x7by\x7d\x7d\x7d".toList ∧
        s.IsPlain ∧ HoldsNoMarkerPart s.text ∧ s.HoldsNoAddress ∧
        (s.map (renameSelectors ⟨["b".toList], "h1".toList, "uuid".toList⟩) id).text = s.text ∧
        renameReferences ⟨["b".toList], "h1".toList, "uuid".toList⟩ s.text =
          ".a\x7bfill:\x7b\x7bx_OO\x7b\x7boo_y\x7d\x7d\x7d".toList := by
  have hfilled : IsFilled "fill:\x7b\x7bx\x7d\x7doo\x7b\x7by\x7d\x7d".toList :=
    (IsFilled.of_chars (s := "fill:".toList) (forall_mem_of_all rfl)).append
      (.placeholder (p := ⟨"x".toList⟩) (forall_mem_of_all rfl) (by decide +kernel)
        (.char rfl (.char rfl (.placeholder (p := ⟨"y".toList⟩) (s := []) (forall_mem_of_all rfl)
          (by decide +kernel) .nil))))
  refine ⟨by decide +kernel,
    ⟨[.mk ".a".toList [] "fill:\x7b\x7bx\x7d\x7doo\x7b\x7by\x7d\x7d".toList], []⟩, rfl, ?_,
    by decide +kernel, ?_, by decide +kernel, by decide +kernel⟩
  · refine ⟨List.forall_mem_cons.2 ⟨fun _ => ?_, List.forall_mem_singleton.2 nofun⟩,
      List.forall_mem_cons.2 ⟨nofun, List.forall_mem_singleton.2 fun _ => hfilled⟩, .nil⟩
    exact .of_notMem (by simp) (.of_chars (forall_mem_of_all rfl)) (by decide +kernel)
      (.inl (by decide +kernel))
  · refine ⟨List.forall_mem_cons.2 ⟨nofun, List.forall_mem_singleton.2 fun _ => ?_⟩,
      by decide +kernel⟩
    decide +kernel

end SvgAssets.Stylesheet
