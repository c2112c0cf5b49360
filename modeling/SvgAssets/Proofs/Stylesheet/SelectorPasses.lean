/-
# SvgAssets.Proofs.Stylesheet.SelectorPasses -- renaming selectors, stretch by stretch

Selectors are looked up in preludes, and preludes in a sheet whose placeholders are hidden. This
module says how each of the two passes goes on behind a stretch of text: a `#` belongs to nothing in
front of it (`renameSelectors_append_hash`), a name to the selector up to its end
(`renameSelectors_selector`), and a sheet that breaks off within a prelude is renamed in the same
way whatever selector comes next (`exists_renamePreludes`).
-/
import SvgAssets.Proofs.Stylesheet.HiddenAddresses
import SvgAssets.Proofs.Stylesheet.HiddenText

namespace SvgAssets.Stylesheet

open Text Markup

/-! ## Selectors -/

namespace IdSelector

theorem isNameChar_of_isNameStart {c : Char} (h : isNameStart c = true) : isNameChar c = true := by
  rw [isNameStart, Bool.or_eq_true, beq_iff_eq] at h
  rcases h with rfl | h
  · decide
  · have hlt : c.toNat < 0x80 := by
      have hletter : (decide ('A'.val ≤ c.val ∧ c.val ≤ 'Z'.val) ||
          decide ('a'.val ≤ c.val) && decide (c.val ≤ 'z'.val)) = true := h
      simp only [Bool.or_eq_true, Bool.and_eq_true, decide_eq_true_eq, UInt32.le_iff_toNat_le]
        at hletter
      have hc : c.toNat = c.val.toNat := rfl
      have hupper : 'Z'.val.toNat = 90 := rfl
      have hlower : 'z'.val.toNat = 122 := rfl
      omega
    simp [isNameChar, isWordChar, isAlphanumeric, hlt, Char.isAlphanum, h]

theorem isInnerChar_of_isNameChar {c : Char} (hc : isNameChar c = true) : isInnerChar c = true := by
  rw [isInnerChar, Bool.and_eq_true, bne_iff_ne, bne_iff_ne]
  constructor
  · rintro rfl
    exact absurd hc (by decide)
  · rintro rfl
    exact absurd hc (by decide)

theorem hash_notMem {v : Text} (hv : ∀ c ∈ v, isNameChar c = true) : '#' ∉ v :=
  fun hc => absurd (hv _ hc) (by decide)

theorem read_cons_of_ne {c : Char} (hc : c ≠ '#') (s : Text) : read (c :: s) = none := by
  simp [read, after?, hc.symm]

theorem startsName_cons {c : Char} (hc : c ≠ '-') (s : Text) :
    startsName (c :: s) = isNameStart c := by
  unfold startsName
  split
  · rename_i he
    exact absurd (List.cons.inj he).1 hc
  · rename_i he
    rw [(List.cons.inj he).1]
  · rename_i he
    cases he

/-- Whether a name begins is decided within the name, if no name goes on behind it. -/
theorem startsName_append (v : Text) {t : Text} (ht : ∀ c ∈ t.head?, isNameChar c = false) :
    startsName (v ++ t) = startsName v := by
  have hstart : ∀ c ∈ t.head?, isNameStart c = false := by
    intro c hc
    rw [← Bool.not_eq_true]
    intro h
    have hname := isNameChar_of_isNameStart h
    rw [ht c hc] at hname
    cases hname
  cases v with
  | nil =>
    cases t with
    | nil => rfl
    | cons c t =>
      have hc : c ≠ '-' := by
        rintro rfl
        exact absurd (ht '-' rfl) (by decide)
      exact (startsName_cons hc t).trans (hstart c rfl)
  | cons c v =>
    by_cases hc : c = '-'
    · subst hc
      cases v with
      | nil =>
        cases t with
        | nil => rfl
        | cons d t => exact hstart d rfl
      | cons d v => rfl
    · rw [List.cons_append, startsName_cons hc, startsName_cons hc]

/-- A selector is read up to the end of its name. -/
theorem read_selector {v t : Text} (hv : ∀ c ∈ v, isNameChar c = true)
    (ht : ∀ c ∈ t.head?, isNameChar c = false) :
    read ('#' :: (v ++ t)) = if startsName v then some (⟨v⟩, t) else none := by
  have hrun : run isNameChar (v ++ t) = (v, t) := run_eq_iff.2 ⟨rfl, hv, ht⟩
  simp [read, after?, startsName_append v ht, hrun]

theorem isNameChar_of_read {s rest : Text} {i : IdSelector} (h : read s = some (i, rest)) :
    ∀ c ∈ i.name, isNameChar c = true := by
  simp only [read, Option.bind_eq_bind, Option.bind_eq_some_iff, after?_eq_some_iff] at h
  obtain ⟨s₁, rfl, h⟩ := h
  split at h
  · cases h
    exact ((run_eq_iff (q := isNameChar)).1 rfl).2.1
  · cases h

end IdSelector

section

variable (r : Renaming)

/-- Selectors with their identifiers renamed. -/
abbrev renameSelectors (s : Text) : Text := IdSelector.pattern.replace (renamedSelector r) s

/-- A text without a hash is copied. -/
theorem renameSelectors_append_of_notMem {w : Text} (h : '#' ∉ w) (t : Text) :
    renameSelectors r (w ++ t) = w ++ renameSelectors r t := by
  have hsilent : IdSelector.pattern.Silent none w t := by
    refine IdSelector.pattern.silent_of_forall_suffix ?_ none
    intro v hne hv prev
    obtain ⟨c, v, rfl⟩ := List.exists_cons_of_ne_nil hne
    refine IdSelector.read_cons_of_ne ?_ _
    rintro rfl
    exact h (hv.subset (List.mem_cons_self ..))
  refine (Pattern.replaceFrom_append_of_silent hsilent).trans ?_
  exact congrArg (w ++ ·) (Pattern.replaceFrom_congr (fun _ _ _ => rfl) _ none t)

/-- What stands in front of a hash does not go on with it. -/
theorem renameSelectors_append_hash (s t : Text) :
    renameSelectors r (s ++ '#' :: t) = renameSelectors r s ++ renameSelectors r ('#' :: t) := by
  have hcut : IdSelector.pattern.CutsAt s ('#' :: t) := by
    intro prev v hne _
    obtain ⟨c, v, rfl⟩ := List.exists_cons_of_ne_nil hne
    show IdSelector.read (c :: (v ++ '#' :: t)) =
      (IdSelector.read (c :: v)).map fun (i, rest) => (i, rest ++ '#' :: t)
    by_cases hc : c = '#'
    · subst hc
      cases hrun : run IdSelector.isNameChar v with
      | mk name rest =>
        obtain ⟨rfl, hname, hrest⟩ := run_eq_iff.1 hrun
        have hbehind : ∀ d ∈ (rest ++ '#' :: t).head?, IdSelector.isNameChar d = false := by
          intro d hd
          cases rest with
          | nil =>
            cases hd
            decide
          | cons e rest => exact hrest d hd
        rw [List.append_assoc, IdSelector.read_selector hname hbehind,
          IdSelector.read_selector hname hrest]
        split <;> rfl
    · rw [IdSelector.read_cons_of_ne hc, IdSelector.read_cons_of_ne hc]
      rfl
  refine (hcut.replaceFrom_append none).trans ?_
  exact congrArg (renameSelectors r s ++ ·) (Pattern.replaceFrom_congr (fun _ _ _ => rfl) _ none _)

/-- A selector with a name of name characters is renamed if its name begins as one. -/
theorem renameSelectors_selector {v t : Text} (hv : ∀ c ∈ v, IdSelector.isNameChar c = true)
    (ht : ∀ c ∈ t.head?, IdSelector.isNameChar c = false) :
    renameSelectors r ('#' :: (v ++ t)) =
      (if IdSelector.startsName v then renamedSelector r ⟨v⟩ else '#' :: v) ++
        renameSelectors r t := by
  have hread : IdSelector.pattern.read none ('#' :: (v ++ t)) = _ := IdSelector.read_selector hv ht
  cases hstart : IdSelector.startsName v with
  | true =>
    rw [hstart, if_pos rfl] at hread
    rw [if_pos rfl]
    refine (IdSelector.pattern.replaceFrom_of_read hread).trans ?_
    exact congrArg (renamedSelector r ⟨v⟩ ++ ·)
      (Pattern.replaceFrom_congr (fun _ _ _ => rfl) _ none t)
  | false =>
    rw [hstart, if_neg Bool.false_ne_true] at hread
    rw [if_neg Bool.false_ne_true, List.cons_append]
    refine (IdSelector.pattern.replaceFrom_of_none hread).trans ?_
    refine congrArg ('#' :: ·) ?_
    rw [← renameSelectors_append_of_notMem r (IdSelector.hash_notMem hv) t]
    exact Pattern.replaceFrom_congr (fun _ _ _ => rfl) _ none _

/-- A hidden placeholder is left as it is if no identifier begins like one. -/
theorem renameSelectors_hidden (hids : ∀ w ∈ r.ids, ¬ openMarker <+: w) {p : Placeholder}
    (hp : '#' ∉ p.inner) {t : Text} (ht : ∀ c ∈ t.head?, IdSelector.isNameChar c = false) :
    renameSelectors r ('#' :: (p.hidden ++ t)) = '#' :: p.hidden ++ renameSelectors r t := by
  cases hrun : run IdSelector.isNameChar (p.inner ++ closeMarker) with
  | mk name rest =>
    -- What is read as a name begins with the marker, and ends within the placeholder.
    obtain ⟨hinner, hname, hrest⟩ := run_eq_iff.1 hrun
    have hhidden : p.hidden = (openMarker ++ name) ++ rest := by
      rw [Placeholder.hidden, List.append_assoc, hinner, List.append_assoc]
    have hopen : ∀ c ∈ openMarker ++ name, IdSelector.isNameChar c = true :=
      List.forall_mem_append.2 ⟨forall_mem_of_all rfl, hname⟩
    have hbehind : ∀ c ∈ (rest ++ t).head?, IdSelector.isNameChar c = false := by
      cases rest with
      | nil => exact ht
      | cons d rest => exact hrest
    have hstays : openMarker ++ name ∉ r.ids := fun hid => hids _ hid (List.prefix_append _ _)
    have hhash : '#' ∉ rest := by
      intro hmem
      have hmem' : '#' ∈ p.inner ++ closeMarker := by
        rw [hinner]
        exact List.mem_append_right _ hmem
      exact (List.mem_append.1 hmem').elim hp (by decide)
    rw [hhidden, List.append_assoc, renameSelectors_selector r hopen hbehind,
      renameSelectors_append_of_notMem r hhash, show IdSelector.startsName (openMarker ++ name) =
        true from rfl, if_pos rfl, renamedSelector, if_neg hstays]
    simp [IdSelector.text]

/-- Renaming keeps the first character. -/
theorem head?_renameSelectors (c : Char) (s : Text) :
    ∃ t, renameSelectors r (c :: s) = c :: t := by
  cases hread : IdSelector.pattern.read none (c :: s) with
  | none => exact ⟨_, IdSelector.pattern.replaceFrom_of_none hread⟩
  | some found =>
    obtain ⟨i, rest⟩ := found
    have hs := IdSelector.text_of_read hread
    obtain ⟨rfl, -⟩ := List.cons.inj hs
    have hreplace := IdSelector.pattern.replaceFrom_of_read (f := renamedSelector r) hread
    have htoken : ∃ w, renamedSelector r i = '#' :: w := by
      unfold renamedSelector
      split
      · exact ⟨_, rfl⟩
      · exact ⟨_, rfl⟩
    obtain ⟨w, hw⟩ := htoken
    rw [hw] at hreplace
    exact ⟨_, hreplace⟩

theorem renames_renameSelectors (s : Text) : Renames r s (renameSelectors r s) := by
  refine Pattern.rel_replaceFrom .nil .append (fun c => .refl [c]) ?_ none s
  intro prev s i rest h
  show Renames r i.text (renamedSelector r i)
  unfold renamedSelector
  split
  · rename_i hid
    have hname := Renames.selector hid (IdSelector.isNameChar_of_read h) .nil
    rwa [List.append_nil, List.append_nil] at hname
  · exact .refl _

end

/-! ## Preludes -/

namespace Prelude

theorem readSelectors_append {sel : Text} (hne : sel ≠ [])
    (hsel : ∀ c ∈ sel, isInnerChar c = true) (t : Text) :
    readSelectors (sel ++ '\x7b' :: t) = some (sel, '\x7b' :: t) := by
  obtain ⟨c, cs, rfl⟩ := List.exists_cons_of_ne_nil hne
  rw [readSelectors, run_append_cons hsel rfl]
  rfl

theorem readSelectors_cons_brace {c : Char} (hc : isInnerChar c = false) (s : Text) :
    readSelectors (c :: s) = none := by
  simp [readSelectors, run, hc]

theorem read_cons_brace {c : Char} (hc : isInnerChar c = false) (prev : Option Char) (s : Text) :
    read prev (c :: s) = (readSelectors s).map fun (sel, rest) => (⟨some c, sel⟩, rest) := by
  have hnone : (if prev.isNone then readSelectors (c :: s) else none) = none := by
    rw [readSelectors_cons_brace hc, ite_self]
  unfold read
  rw [hnone]
  simp [one?, hc]

theorem read_cons_inner {c : Char} (hc : isInnerChar c = true) (prev : Option Char) (s : Text) :
    read prev (c :: s) =
      if prev.isNone then (readSelectors (c :: s)).map fun (sel, rest) => (⟨none, sel⟩, rest)
      else none := by
  unfold read
  cases prev with
  | some d => simp [one?, hc]
  | none =>
    cases hread : readSelectors (c :: s) with
    | none => simp [one?, hc]
    | some found => simp

/-- Whether selectors are read in front of a brace, and which, does not depend on what follows the
brace. -/
theorem readSelectors_before {c : Char} (hc : isInnerChar c = false) (v : Text) :
    (∀ t, readSelectors (v ++ c :: t) = none) ∨
      ∃ sel rest, v = sel ++ rest ∧ sel ≠ [] ∧
        ∀ t, readSelectors (v ++ c :: t) = some (sel, rest ++ c :: t) := by
  cases hrun : run isInnerChar v with
  | mk sel rest =>
    obtain ⟨rfl, hsel, hrest⟩ := run_eq_iff.1 hrun
    have hwhole : ∀ t, run isInnerChar (sel ++ rest ++ c :: t) = (sel, rest ++ c :: t) := by
      intro t
      refine run_eq_iff.2 ⟨by rw [List.append_assoc], hsel, ?_⟩
      cases rest with
      | nil => simpa using hc
      | cons d rest => simpa using hrest
    cases sel with
    | nil =>
      left
      intro t
      rw [readSelectors, hwhole]
    | cons d sel =>
      by_cases hopen : (rest ++ [c]).head? = some '\x7b'
      · refine .inr ⟨d :: sel, rest, rfl, by simp, fun t => ?_⟩
        obtain ⟨back, hback⟩ : ∃ back, rest ++ c :: t = '\x7b' :: back := by
          cases rest with
          | nil =>
            cases hopen
            exact ⟨t, rfl⟩
          | cons e rest =>
            cases hopen
            exact ⟨rest ++ c :: t, rfl⟩
        rw [readSelectors, hwhole, hback]
        rfl
      · refine .inl fun t => ?_
        rw [readSelectors, hwhole]
        split
        · rename_i he
          exfalso
          refine hopen ?_
          have hrest := (Prod.mk.inj he).2
          cases rest with
          | nil => exact congrArg some (List.cons.inj hrest).1
          | cons e rest => exact congrArg some (List.cons.inj hrest).1
        · rfl

/-- The same holds of preludes. -/
theorem read_before {c : Char} (hc : isInnerChar c = false) (prev : Option Char) {v : Text}
    (hv : v ≠ []) :
    (∀ t, read prev (v ++ c :: t) = none) ∨
      ∃ p rest, v = p.text ++ rest ∧ p.text ≠ [] ∧
        ∀ t, read prev (v ++ c :: t) = some (p, rest ++ c :: t) := by
  obtain ⟨d, v, rfl⟩ := List.exists_cons_of_ne_nil hv
  cases hd : isInnerChar d with
  | false =>
    rcases readSelectors_before hc v with hnone | ⟨sel, rest, rfl, hne, hsome⟩
    · left
      intro t
      rw [List.cons_append, read_cons_brace hd, hnone]
      rfl
    · refine .inr ⟨⟨some d, sel⟩, rest, rfl, by simp [text], fun t => ?_⟩
      rw [List.cons_append, read_cons_brace hd, hsome]
      rfl
  | true =>
    cases prev with
    | some e =>
      left
      intro t
      rw [List.cons_append, read_cons_inner hd]
      rfl
    | none =>
      rcases readSelectors_before hc (d :: v) with hnone | ⟨sel, rest, hdv, hne, hsome⟩
      · left
        intro t
        have := hnone t
        rw [List.cons_append] at this ⊢
        rw [read_cons_inner hd, this]
        rfl
      · refine .inr ⟨⟨none, sel⟩, rest, hdv, hne, fun t => ?_⟩
        have := hsome t
        rw [List.cons_append] at this ⊢
        rw [read_cons_inner hd, this]
        rfl

end Prelude

section

variable (r : Renaming)

/-- A sheet with the selectors in its preludes renamed, where `prev` is the character in front. -/
abbrev renamePreludes (prev : Option Char) (s : Text) : Text :=
  Prelude.pattern.replaceFrom (renamedPrelude r) prev s

theorem renameSelectors_nil : renameSelectors r [] = [] :=
  IdSelector.pattern.replaceFrom_nil _ none

/-- At a brace it does not matter what stands in front. -/
theorem renamePreludes_congr {c : Char} (hc : isInnerChar c = false) (prev prev' : Option Char)
    (s : Text) : renamePreludes r prev (c :: s) = renamePreludes r prev' (c :: s) := by
  have hcongr : ∀ prev,
      Prelude.pattern.read prev (c :: s) = Prelude.pattern.read none (c :: s) := by
    intro prev
    exact (Prelude.read_cons_brace hc prev s).trans (Prelude.read_cons_brace hc none s).symm
  cases hread : Prelude.pattern.read none (c :: s) with
  | none =>
    rw [renamePreludes, renamePreludes, Pattern.replaceFrom_of_none _ ((hcongr prev).trans hread),
      Pattern.replaceFrom_of_none _ ((hcongr prev').trans hread)]
  | some found =>
    rw [renamePreludes, renamePreludes, Pattern.replaceFrom_of_read _ ((hcongr prev).trans hread),
      Pattern.replaceFrom_of_read _ ((hcongr prev').trans hread)]

/-- The selectors between a brace and an opening brace are renamed. -/
theorem renamePreludes_cons {c : Char} (hc : isInnerChar c = false) {sel : Text}
    (hsel : ∀ d ∈ sel, isInnerChar d = true) (prev : Option Char) (t : Text) :
    renamePreludes r prev (c :: (sel ++ '\x7b' :: t)) =
      c :: (renameSelectors r sel ++ renamePreludes r none ('\x7b' :: t)) := by
  have hread : Prelude.pattern.read prev (c :: (sel ++ '\x7b' :: t)) = _ :=
    Prelude.read_cons_brace hc prev _
  by_cases hne : sel = []
  · subst hne
    rw [List.nil_append, Prelude.readSelectors_cons_brace rfl, Option.map_none] at hread
    rw [renamePreludes, List.nil_append, Pattern.replaceFrom_of_none _ hread, renameSelectors_nil,
      List.nil_append]
    exact congrArg (c :: ·) (renamePreludes_congr r rfl _ none t)
  · rw [Prelude.readSelectors_append hne hsel, Option.map_some] at hread
    rw [renamePreludes, Pattern.replaceFrom_of_read _ hread]
    exact congrArg (c :: renameSelectors r sel ++ ·) (renamePreludes_congr r rfl _ none t)

/-- So are those at the start of a sheet. -/
theorem renamePreludes_start {sel : Text} (hsel : ∀ d ∈ sel, isInnerChar d = true) (t : Text) :
    renamePreludes r none (sel ++ '\x7b' :: t) =
      renameSelectors r sel ++ renamePreludes r none ('\x7b' :: t) := by
  cases sel with
  | nil => rw [List.nil_append, renameSelectors_nil, List.nil_append]
  | cons c sel =>
    have hread : Prelude.pattern.read none (c :: (sel ++ '\x7b' :: t)) = _ :=
      Prelude.read_cons_inner (hsel c (List.mem_cons_self ..)) none _
    rw [← List.cons_append, Prelude.readSelectors_append (by simp) hsel,
      Option.isNone_none, if_pos rfl, Option.map_some] at hread
    rw [renamePreludes, Pattern.replaceFrom_of_read _ hread]
    exact congrArg (renameSelectors r (c :: sel) ++ ·) (renamePreludes_congr r rfl _ none t)

/-- A sheet that breaks off in a prelude is renamed in the same way whatever the prelude goes on
with, if it goes on with a hash. -/
theorem exists_renamePreludes (f : Text) :
    ∃ x, ∀ sel t, (∀ c ∈ sel, isInnerChar c = true) → (sel = [] ∨ ∃ s, sel = '#' :: s) →
      renamePreludes r none (f ++ (sel ++ '\x7b' :: t)) =
        x ++ (renameSelectors r sel ++ renamePreludes r none ('\x7b' :: t)) := by
  have hsplit : ∀ (s sel : Text), (sel = [] ∨ ∃ s, sel = '#' :: s) →
      renameSelectors r (s ++ sel) = renameSelectors r s ++ renameSelectors r sel := by
    rintro s sel (rfl | ⟨s', rfl⟩)
    · rw [renameSelectors_nil, List.append_nil, List.append_nil]
    · exact renameSelectors_append_hash r s s'
  cases hrun : run isInnerChar f.reverse with
  | mk back front =>
    obtain ⟨hf, hback, hfront⟩ := run_eq_iff.1 hrun
    have hf' : f = front.reverse ++ back.reverse := by
      rw [← List.reverse_append, ← hf, List.reverse_reverse]
    have hinner : ∀ c ∈ back.reverse, isInnerChar c = true :=
      fun c hc => hback c (List.mem_reverse.1 hc)
    cases front with
    | nil =>
      refine ⟨renameSelectors r back.reverse, fun sel t hsel hhash => ?_⟩
      rw [hf', List.reverse_nil, List.nil_append, ← List.append_assoc,
        renamePreludes_start r (List.forall_mem_append.2 ⟨hinner, hsel⟩), hsplit _ _ hhash,
        List.append_assoc]
    | cons c front =>
      have hc := hfront c rfl
      obtain ⟨x, hx⟩ := Pattern.exists_replaceFrom_append (p := Prelude.pattern)
        (f := renamedPrelude r) (T := fun t => ∃ t', t = c :: t') (u := front.reverse)
        (by
          intro prev v hv _
          rcases Prelude.read_before hc prev hv with hnone | ⟨p, rest, hp, hne, hsome⟩
          · exact .inl fun t ⟨t', ht⟩ => ht ▸ hnone t'
          · exact .inr ⟨p, rest, hp, hne, fun t ⟨t', ht⟩ => ht ▸ hsome t'⟩) none
      refine ⟨x ++ c :: renameSelectors r back.reverse, fun sel t hsel hhash => ?_⟩
      have hwhole : renamePreludes r none (front.reverse ++ c :: (back.reverse ++ sel ++
          '\x7b' :: t)) = x ++ renamePreludes r _ (c :: (back.reverse ++ sel ++ '\x7b' :: t)) :=
        hx _ ⟨_, rfl⟩
      rw [renamePreludes_cons r hc (List.forall_mem_append.2 ⟨hinner, hsel⟩), hsplit _ _ hhash]
        at hwhole
      rw [hf', List.reverse_cons]
      simpa using hwhole

/-- Renaming keeps the first character of a text in front of a block. -/
theorem head?_renamePreludes {sel : Text} (hsel : ∀ d ∈ sel, isInnerChar d = true) (t : Text) :
    (renamePreludes r none (sel ++ '\x7b' :: t)).head? = (sel ++ ['\x7b']).head? := by
  rw [renamePreludes_start r hsel]
  cases sel with
  | cons c sel =>
    obtain ⟨s, hs⟩ := head?_renameSelectors r c sel
    rw [hs]
    rfl
  | nil =>
    rw [renameSelectors_nil, List.nil_append]
    have hbrace : isInnerChar '\x7b' = false := rfl
    have hread : Prelude.pattern.read none ('\x7b' :: t) = _ :=
      Prelude.read_cons_brace hbrace none t
    cases hsel : Prelude.readSelectors t with
    | none =>
      rw [hsel, Option.map_none] at hread
      rw [renamePreludes, Pattern.replaceFrom_of_none _ hread]
      rfl
    | some found =>
      rw [hsel, Option.map_some] at hread
      rw [renamePreludes, Pattern.replaceFrom_of_read _ hread]
      rfl

theorem renames_renamePreludes (s : Text) : Renames r s (renamePreludes r none s) := by
  refine Pattern.rel_replaceFrom .nil .append (fun c => .refl [c]) ?_ none s
  intro prev s p rest _
  exact (Renames.refl p.brace.toList).append (renames_renameSelectors r p.selectors)

end

end SvgAssets.Stylesheet
