/-
# SvgAssets.Proofs.Stylesheet.SelectorRenaming -- which rules follow their identifiers

When the identifiers of a document are renamed, a rule that selects an element by `#v` has to be
renamed with the element. What the passes over a style sheet make of one such selector does not
depend on the rest of the sheet (`exists_renameReferences`). It gets the name that the definition
gets if its own name begins with an ASCII letter or an underscore, perhaps behind a hyphen, and no
marker can be read in the new name, and in no other case (`selector_follows_iff`): a name that
begins with another letter is not read as a selector, nor is a placeholder, whose braces are hidden.
-/
import SvgAssets.Proofs.Markup.Renaming
import SvgAssets.Proofs.Stylesheet.SelectorPasses

namespace SvgAssets.Stylesheet

open Text Markup

/-! ## Places of selectors -/

/-- Between the two texts a selector may stand: no address is open there, and behind it the text,
with its placeholders hidden, does not go on with the name but leads to the block of the rule. -/
structure IsSelectorPlace (front back : Text) : Prop where
  address_closed : ¬ HasOpenAddress front
  ends : ∀ c ∈ (hidePlaceholders back).head?, IdSelector.isNameChar c = false ∧ c ≠ '('
  opens_block : (run isInnerChar (hidePlaceholders back)).2.head? = some '\x7b'

theorem IsSelectorPlace.exists_behind {front back : Text} (h : IsSelectorPlace front back) :
    ∃ sel t, hidePlaceholders back = sel ++ '\x7b' :: t ∧ ∀ c ∈ sel, isInnerChar c = true := by
  cases hrun : run isInnerChar (hidePlaceholders back) with
  | mk sel rest =>
    obtain ⟨hback, hsel, -⟩ := run_eq_iff.1 hrun
    have hopens := h.opens_block
    rw [hrun] at hopens
    cases rest with
    | nil => cases hopens
    | cons c t =>
      cases hopens
      exact ⟨sel, t, hback, hsel⟩

/-! ## Hiding around a selector -/

/-- A text in which no placeholder begins is kept. -/
theorem hide_append_of_notMem {w : Text} (h : '\x7b' ∉ w) (t : Text) :
    hidePlaceholders (w ++ t) = w ++ hidePlaceholders t := by
  have hsilent : Placeholder.pattern.Silent none w t := by
    refine Placeholder.pattern.silent_of_forall_suffix ?_ none
    intro v hne hv prev
    obtain ⟨c, v, rfl⟩ := List.exists_cons_of_ne_nil hne
    have hc : c ≠ '\x7b' := by
      rintro rfl
      exact h (hv.subset (List.mem_cons_self ..))
    show Placeholder.read (c :: (v ++ t)) = none
    simp [Placeholder.read, after?, hc.symm]
  refine (Pattern.replaceFrom_append_of_silent hsilent).trans ?_
  exact congrArg (w ++ ·) (Pattern.replaceFrom_congr (fun _ _ _ => rfl) _ none t)

theorem hide_nil : hidePlaceholders [] = [] := Placeholder.pattern.replaceFrom_nil _ none

theorem hide_cons_of_ne {c : Char} (hc : c ≠ '\x7b') (t : Text) :
    hidePlaceholders (c :: t) = c :: hidePlaceholders t :=
  hide_append_of_notMem (w := [c]) (fun hmem => hc (List.mem_singleton.1 hmem).symm) t

theorem hide_append_of_cutsAt {s t : Text} (h : Placeholder.pattern.CutsAt s t) :
    hidePlaceholders (s ++ t) = hidePlaceholders s ++ hidePlaceholders t := by
  refine (h.replaceFrom_append none).trans ?_
  exact congrArg (hidePlaceholders s ++ ·) (Pattern.replaceFrom_congr (fun _ _ _ => rfl) _ none t)

theorem Placeholder.getLast?_text (p : Placeholder) : p.text.getLast? = some '\x7d' := by
  rw [text, List.getLast?_append]
  rfl

/-- A character at the end that closes no placeholder is kept. -/
theorem hide_append_singleton {c : Char} (hc : c ≠ '\x7d') (s : Text) :
    hidePlaceholders (s ++ [c]) = hidePlaceholders s ++ [c] := by
  have hcut : Placeholder.pattern.CutsAt s [c] := by
    refine Pattern.cutsAt_of_exact (fun _ _ _ _ => Placeholder.read_eq_some_iff) ?_
    intro p w z _ htext _ hz _ hprefix
    have hz' : z = [c] := by
      obtain ⟨u, hu⟩ := hprefix
      rcases List.append_eq_singleton_iff.1 hu with ⟨rfl, -⟩ | ⟨rfl, -⟩
      · exact absurd rfl hz
      · rfl
    have hlast := congrArg List.getLast? htext
    rw [hz', List.getLast?_concat] at hlast
    exact hc (Option.some.inj (hlast.symm.trans p.getLast?_text))
  have hsingle : Placeholder.pattern.read none [c] = none := by
    show Placeholder.read [c] = none
    simp [Placeholder.read, after?]
  have hkept : hidePlaceholders [c] = [c] :=
    (Placeholder.pattern.replaceFrom_of_none hsingle).trans
      (congrArg (c :: ·) (Placeholder.pattern.replaceFrom_nil _ _))
  rw [hide_append_of_cutsAt hcut, hkept]

/-- No placeholder lies across the place of a selector. -/
theorem IsSelectorPlace.hide_eq {front back : Text} (h : IsSelectorPlace front back) {v : Text}
    (hv : ∀ c ∈ v, IdSelector.isNameChar c = true) :
    hidePlaceholders (front ++ '#' :: (v ++ back)) =
      hidePlaceholders front ++ '#' :: (v ++ hidePlaceholders back) := by
  have hbrace : ∀ {c : Char}, c = '\x7b' ∨ c = '\x7d' → c ∉ v := by
    rintro c (rfl | rfl) hc
    · exact absurd (hv _ hc) (by decide)
    · exact absurd (hv _ hc) (by decide)
  have hcut : Placeholder.pattern.CutsAt front ('#' :: (v ++ back)) := by
    refine Pattern.cutsAt_of_exact (fun _ _ _ _ => Placeholder.read_eq_some_iff) ?_
    rintro p w z hp htext hw hz - ⟨rest, hrest⟩
    obtain ⟨d, z, rfl⟩ := List.exists_cons_of_ne_nil hz
    rw [List.cons_append, List.cons.injEq] at hrest
    obtain ⟨rfl, hrest⟩ := hrest
    -- What stands behind the hash in the placeholder holds no brace up to the closing ones.
    obtain ⟨w₁, rfl, h₁⟩ := exists_of_append_eq (x := ['\x7b', '\x7b'])
      (y := p.inner ++ ['\x7d', '\x7d']) (by decide) htext
    rcases exists_of_append_eq_append_cons h₁ with ⟨s, -, hclosing⟩ | ⟨u, hinner, rfl⟩
    · have hmem : '#' ∈ ['\x7d', '\x7d'] := by
        rw [hclosing]
        simp
      exact absurd hmem (by decide)
    · rw [List.append_assoc] at hrest
      obtain ⟨s, rfl, hback⟩ := exists_of_append_eq (hbrace (.inr rfl)) hrest.symm
      have hs : ∀ c ∈ s, isInnerChar c = true := fun c hc => hp c (by simp [hinner, hc])
      have hopen : '\x7b' ∉ s ++ ['\x7d'] := by
        rw [List.mem_append, not_or]
        exact ⟨fun hmem => absurd (hs _ hmem) (by decide), by decide⟩
      have hhidden : hidePlaceholders back = s ++ '\x7d' :: hidePlaceholders ('\x7d' :: rest) := by
        rw [hback]
        simpa using hide_append_of_notMem hopen ('\x7d' :: rest)
      have hopens := h.opens_block
      rw [hhidden, run_append_cons hs rfl] at hopens
      exact absurd (Option.some.inj hopens) (by decide)
  have hname : '\x7b' ∉ '#' :: v := by
    rw [List.mem_cons, not_or]
    exact ⟨by decide, hbrace (.inl rfl)⟩
  rw [hide_append_of_cutsAt hcut, ← List.cons_append, hide_append_of_notMem hname,
    List.cons_append]

/-! ## Renaming around a selector -/

variable {r : Renaming}

theorem renameReferences_eq (h : r.ids ≠ []) (s : Text) :
    renameReferences r s = r.applyToAddresses
      (restorePlaceholders (renamePreludes r none (hidePlaceholders s))) := by
  have hids : r.ids.isEmpty = false := by simpa using h
  unfold renameReferences
  cases s with
  | nil =>
    have hpreludes : renamePreludes r none (hidePlaceholders []) = [] := by
      rw [hide_nil]
      exact Prelude.pattern.replaceFrom_nil _ none
    have haddresses : r.applyToAddresses [] = [] := r.applyToAddresses_eq_self (by decide)
    rw [hpreludes, restore_nil, haddresses]
    rfl
  | cons c s =>
    rw [if_neg (by simp [hids])]
    rfl

/-- What the name at the place of a selector is followed by, with its own selectors renamed. -/
theorem IsSelectorPlace.head?_renamePreludes {front back : Text} (h : IsSelectorPlace front back) :
    ∃ c t, renamePreludes r none (hidePlaceholders back) = c :: t ∧
      c ∉ ['_', 'o', 'O'] ∧ c ∉ ['r', 'l', '('] := by
  obtain ⟨sel, t, hback, hsel⟩ := h.exists_behind
  have hhead := Stylesheet.head?_renamePreludes r hsel t
  rw [← hback] at hhead
  cases hrenamed : renamePreludes r none (hidePlaceholders back) with
  | nil =>
    rw [hrenamed] at hhead
    cases sel <;> cases hhead
  | cons c u =>
    rw [hrenamed] at hhead
    refine ⟨c, u, rfl, ?_⟩
    cases sel with
    | nil =>
      cases hhead
      decide
    | cons d sel =>
      cases hhead
      obtain ⟨hname, hparen⟩ := h.ends c (by rw [hback]; rfl)
      constructor
      · intro hmem
        rw [forall_mem_of_all (P := (IdSelector.isNameChar · = true)) rfl c hmem] at hname
        cases hname
      · intro hmem
        simp only [List.mem_cons, List.not_mem_nil, or_false] at hmem
        rcases hmem with rfl | rfl | rfl
        · exact absurd hname (by decide)
        · exact absurd hname (by decide)
        · exact hparen rfl

/-- Between `front` and `back`, with its placeholders hidden, the name `v` stands as `m`, and where
selectors are renamed `#m` becomes `#n`. -/
structure BecomesIn (r : Renaming) (front back v m n : Text) : Prop where
  hidden : hidePlaceholders (front ++ '#' :: (v ++ back)) =
    hidePlaceholders front ++ '#' :: (m ++ hidePlaceholders back)
  inner : ∀ c ∈ m, isInnerChar c = true
  renamed : ∀ t, (∀ c ∈ t.head?, IdSelector.isNameChar c = false) →
    renameSelectors r ('#' :: (m ++ t)) = '#' :: n ++ renameSelectors r t

section

variable {front back v m n : Text}

/-- The selectors of the front and of the back are renamed as if each stood alone. -/
theorem BecomesIn.exists_renamePreludes (h : BecomesIn r front back v m n)
    (hplace : IsSelectorPlace front back) :
    ∃ x, renamePreludes r none (hidePlaceholders (front ++ ['\x7b'])) = x ++ ['\x7b'] ∧
      renamePreludes r none (hidePlaceholders (front ++ '#' :: (v ++ back))) =
        x ++ '#' :: (n ++ renamePreludes r none (hidePlaceholders back)) := by
  obtain ⟨x, hx⟩ := Stylesheet.exists_renamePreludes r (hidePlaceholders front)
  obtain ⟨sel, t, hback, hsel⟩ := hplace.exists_behind
  refine ⟨x, ?_, ?_⟩
  · have hbrace : renamePreludes r none ['\x7b'] = ['\x7b'] :=
      (Prelude.pattern.replaceFrom_of_none rfl).trans
        (congrArg ('\x7b' :: ·) (Prelude.pattern.replaceFrom_nil _ _))
    have hnil := hx [] [] (by simp) (.inl rfl)
    rwa [List.nil_append, renameSelectors_nil, List.nil_append, hbrace,
      ← hide_append_singleton (by decide)] at hnil
  · have hends : ∀ d ∈ sel.head?, IdSelector.isNameChar d = false := by
      intro d hd
      refine (hplace.ends d ?_).1
      rw [hback, List.head?_append, Option.mem_def.1 hd]
      rfl
    have hinner : ∀ d ∈ '#' :: (m ++ sel), isInnerChar d = true :=
      List.forall_mem_cons.2 ⟨rfl, List.forall_mem_append.2 ⟨h.inner, hsel⟩⟩
    have hselector := hx ('#' :: (m ++ sel)) t hinner (.inr ⟨_, rfl⟩)
    rw [h.renamed sel hends, List.append_assoc, ← renamePreludes_start r hsel, ← hback]
      at hselector
    have hjoined : '#' :: (m ++ sel) ++ '\x7b' :: t = '#' :: (m ++ hidePlaceholders back) := by
      rw [hback, List.cons_append, List.append_assoc]
    rw [h.hidden, ← hjoined, hselector, List.cons_append]

/-- With the placeholders back, no address is open in front of the selector. -/
theorem IsSelectorPlace.not_hasOpenAddress (hplace : IsSelectorPlace front back)
    (hnew : ∀ name ∈ r.ids, (∀ c ∈ name, IdSelector.isNameChar c = true) →
      ¬ addressStart <:+: r.newName name)
    {x : Text} (hx : renamePreludes r none (hidePlaceholders (front ++ ['\x7b'])) = x ++ ['\x7b']) :
    ¬ HasOpenAddress (restorePlaceholders x) := by
  intro hopen
  have hhidden : HasOpenAddress (x ++ ['\x7b']) :=
    ((Hides.restore x).hasOpenAddress_iff.1 hopen).append_right (by decide)
  rw [← hx] at hhidden
  have hsource := (renames_renamePreludes r _).hasOpenAddress hnew hhidden
  rw [← (Hides.hide _).hasOpenAddress_iff] at hsource
  exact hplace.address_closed (hasOpenAddress_of_append_singleton (by decide) hsource)

/-- **What becomes of a selector does not depend on the rest of the sheet.** -/
theorem BecomesIn.exists_renameReferences (h : BecomesIn r front back v m n) (hids : r.ids ≠ [])
    (hnew : ∀ name ∈ r.ids, (∀ c ∈ name, IdSelector.isNameChar c = true) →
      ¬ addressStart <:+: r.newName name)
    (hplace : IsSelectorPlace front back) (hn : ¬ addressStart <:+: n) :
    ∃ x, renameReferences r (front ++ ['\x7b']) = x ++ ['\x7b'] ∧
      renameReferences r (front ++ '#' :: (v ++ back)) =
        x ++ '#' :: (restorePlaceholders n ++ renameReferences r back) := by
  obtain ⟨x, hfront, hwhole⟩ := h.exists_renamePreludes hplace
  obtain ⟨c, u, hbehind, hmarker, haddress⟩ := hplace.head?_renamePreludes (r := r)
  have hclosed := hplace.not_hasOpenAddress hnew hfront
  refine ⟨r.applyToAddresses (restorePlaceholders x), ?_, ?_⟩
  · have hbrace : r.applyToAddresses ['\x7b'] = ['\x7b'] :=
      r.applyToAddresses_eq_self (by decide)
    rw [renameReferences_eq hids, hfront, restore_append_right (forall_mem_of_all rfl),
      r.applyToAddresses_append hclosed (by rintro d ⟨⟩; decide), hbrace]
  · -- No marker lies across an end of the name, and no address begins in it.
    have hfirst : c ≠ '_' := fun he => hmarker (by rw [he]; decide)
    have hrestored : restorePlaceholders (x ++ '#' :: (n ++ c :: u)) =
        restorePlaceholders x ++ ('#' :: restorePlaceholders n ++ c :: restorePlaceholders u) := by
      rw [restore_append_cons (by decide), restore_cons_of_ne (by decide),
        restore_append_cons hmarker, restore_cons_of_ne hfirst, List.cons_append]
    have hname : ¬ addressStart <:+: '#' :: restorePlaceholders n := by
      intro hmem
      rcases List.infix_cons_iff.1 hmem with hprefix | hwithin
      · exact absurd (List.cons_prefix_cons.1 hprefix).1 (by decide)
      · have hiff := (Hides.restore n).infix_iff (c := 'u') (w := ['r', 'l', '('])
          (forall_mem_of_all rfl) (forall_mem_of_all rfl)
        exact hn (hiff.1 hwithin)
    have hopen := not_hasOpenAddress_of_not_isInfix hname
    rw [renameReferences_eq hids, renameReferences_eq hids, hwhole, hbehind, hrestored,
      r.applyToAddresses_append hclosed (by rintro d ⟨⟩; decide),
      r.applyToAddresses_append hopen (by rintro d ⟨⟩; exact haddress),
      r.applyToAddresses_eq_self hname, List.cons_append, restore_cons_of_ne hfirst]

end

/-! ## New names -/

/-- Neither a reference nor an address begins in the text. -/
structure HoldsNoReference (s : Text) : Prop where
  no_hash : '#' ∉ s
  no_address : ¬ addressStart <:+: s

/-- What holds none of the characters around the parts of a new name stands in one of the parts. -/
theorem infix_newName_iff {m v : Text} (hne : m ≠ []) (hdash : '-' ∉ m) (hopen : '\x7b' ∉ m)
    (hclose : '\x7d' ∉ m) :
    m <:+: r.newName v ↔ m <:+: r.hash ∨ m <:+: v ∨ m <:+: r.instanceVariable := by
  have hsplit : r.newName v = r.hash ++ '-' :: (v ++ '-' :: ([] ++ '\x7b' :: ([] ++ '\x7b' ::
      (r.instanceVariable ++ '\x7d' :: ([] ++ '\x7d' :: []))))) := by
    simp [Renaming.newName]
  rw [hsplit, infix_append_cons_iff hdash, infix_append_cons_iff hdash,
    infix_append_cons_iff hopen, infix_append_cons_iff hopen, infix_append_cons_iff hclose,
    infix_append_cons_iff hclose, List.infix_nil]
  simp [hne]

/-- An address in one new name lies in the hash or the instance variable, and so in every other. -/
theorem HoldsNoReference.of_newName {v name : Text} (h : HoldsNoReference (r.newName v))
    (hname : ∀ c ∈ name, IdSelector.isNameChar c = true) : ¬ addressStart <:+: r.newName name := by
  have hv := h.no_address
  have hiff : ∀ {w}, addressStart <:+: r.newName w ↔ _ :=
    infix_newName_iff (by decide) (by decide) (by decide) (by decide)
  rw [hiff, not_or, not_or] at hv ⊢
  refine ⟨hv.1, fun hmem => ?_, hv.2.2⟩
  exact absurd (hname '(' (hmem.subset (by decide))) (by decide)

/-- A text is restored to itself if no marker can be read in it, and only then. -/
theorem restore_eq_self_iff (s : Text) :
    restorePlaceholders s = s ↔ ¬ openMarker <:+: s ∧ ¬ closeMarker <:+: s := by
  constructor
  · intro h
    constructor
    · rintro ⟨u, t, rfl⟩
      rw [List.append_assoc] at h
      have hrest := (Hides.refl u).restore_cancel h
      rw [restore_openMarker_append] at hrest
      exact absurd (List.cons.inj hrest).1 (by decide)
    · rintro ⟨u, t, rfl⟩
      rw [List.append_assoc] at h
      exact restore_closeMarker_append_ne t t ((Hides.refl u).restore_cancel h)
  · rintro ⟨hopen, hclose⟩
    rw [restorePlaceholders, replaceAll_eq_self hopen, replaceAll_eq_self hclose]

/-! ## Definitions -/

/-- A definition that stands alone gets the new name of its identifier. -/
theorem apply_definition {v : Text} (hv : v ∈ r.ids) (htrim : trim v = v)
    (hname : HoldsNoReference (r.newName v)) {q : Char} (hq : isQuote q = true) (hqv : q ∉ v)
    (hline : '\n' ∉ v) :
    r.apply (['i', 'd', '='] ++ q :: v ++ [q]) = ['i', 'd', '='] ++ q :: r.newName v ++ [q] := by
  have hne : ∀ {c : Char}, isQuote c = false → c ≠ q := by
    rintro c hc rfl
    rw [hq] at hc
    cases hc
  -- The definition is read as a whole.
  have hproper : (⟨['i', 'd'], [], [], q, v⟩ : Attribute).IsProper ['i', 'd'] := {
    name_eq := rfl
    gapBefore_blank := by simp
    gapAfter_blank := by simp
    quote_isQuote := hq
    value_chars := fun c hc => ⟨ne_of_mem_of_not_mem hc hqv, ne_of_mem_of_not_mem hc hline⟩ }
  have hread : idDefinition.read none (['i', 'd', '='] ++ q :: v ++ [q]) =
      some (⟨['i', 'd'], [], [], q, v⟩, []) := by
    have hwhole := Attribute.read_text_append hproper (show atNameStart none = true from rfl) []
    rwa [List.append_nil] at hwhole
  have hdefinition : idDefinition.replace r.definition (['i', 'd', '='] ++ q :: v ++ [q]) =
      ['i', 'd', '='] ++ q :: r.newName v ++ [q] := by
    have hrenamed : r.definition ⟨['i', 'd'], [], [], q, v⟩ =
        ['i', 'd', '='] ++ q :: r.newName v ++ [q] := by
      show (if trim v ∈ r.ids then ['i', 'd', '='] ++ q :: r.newName (trim v) ++ [q] else _) = _
      rw [htrim, if_pos hv]
    refine (idDefinition.replaceFrom_of_read hread).trans ?_
    rw [idDefinition.replaceFrom_nil, List.append_nil, hrenamed]
  -- Its new text refers to nothing.
  have hhash : '#' ∉ ['i', 'd', '='] ++ q :: r.newName v ++ [q] := by
    simp [hname.no_hash, hne (c := '#') rfl]
  have haddress : ¬ addressStart <:+: ['i', 'd', '='] ++ q :: r.newName v ++ [q] := by
    have hqstart : q ∉ addressStart := by
      intro hmem
      rw [forall_mem_of_all (P := (isQuote · = false)) rfl q hmem] at hq
      cases hq
    rw [List.append_assoc, List.cons_append (a := q), infix_append_cons_iff hqstart,
      infix_append_cons_iff hqstart, not_or, not_or]
    exact ⟨by decide, hname.no_address, by decide⟩
  rw [r.apply_eq, hdefinition,
    QuotedReference.pattern.replace_of_silent (QuotedReference.silent_of_hash_notMem hhash)]
  exact r.applyToAddresses_eq_self haddress

/-! ## Selectors that follow their identifiers -/

/-- An identifier that a selector can name: name characters, or a whole placeholder. Of the other
identifiers none may look like a placeholder whose braces are hidden. -/
inductive IsSelectable (r : Renaming) : Text → Prop
  | name {v : Text} : (∀ c ∈ v, IdSelector.isNameChar c = true) → IsSelectable r v
  | placeholder {p : Placeholder} : p.IsProper → (∀ w ∈ r.ids, ¬ openMarker <+: w) →
      IsSelectable r p.text

theorem IsSelectable.trim_eq_self {v : Text} (h : IsSelectable r v) : trim v = v := by
  cases h with
  | name hv =>
    have hblank : ∀ c ∈ v, isBlank c = false := by
      intro c hc
      have hname := hv c hc
      rw [IdSelector.isNameChar, Bool.or_eq_true, beq_iff_eq] at hname
      rcases hname with hword | rfl
      · have hmark := isMark_eq_false_of_isWordChar hword
        rw [← Bool.not_eq_true] at hmark ⊢
        exact fun hblank => hmark (isMark_of_isBlank hblank)
      · rfl
    exact Text.trim_eq_self (fun c hc => hblank c (List.mem_of_head? hc))
      fun c hc => hblank c (List.mem_of_getLast? hc)
  | @placeholder p _ _ =>
    refine Text.trim_eq_self (fun c hc => by cases hc; rfl) fun c hc => ?_
    rw [p.getLast?_text] at hc
    cases hc
    rfl

/-- Where a selectable identifier stands, it becomes its new name if its name begins as one, and
otherwise it is put back no longer than it was. -/
theorem IsSelectable.exists_becomesIn {front back v : Text} (h : IsSelectable r v) (hv : v ∈ r.ids)
    (hname : HoldsNoReference (r.newName v)) (hplace : IsSelectorPlace front back) :
    ∃ m n, BecomesIn r front back v m n ∧ ¬ addressStart <:+: n ∧
      (IdSelector.startsName v = true ∧ n = r.newName v ∨
        IdSelector.startsName v = false ∧ n.length ≤ v.length + 4) := by
  have hwithin : v <:+: r.newName v := by
    refine ⟨r.hash ++ ['-'],
      '-' :: '\x7b' :: '\x7b' :: (r.instanceVariable ++ ['\x7d', '\x7d']), ?_⟩
    simp [Renaming.newName]
  have haddress : ¬ addressStart <:+: v := fun hmem => hname.no_address (hmem.trans hwithin)
  cases h with
  | name hchars =>
    have hinner : ∀ c ∈ v, isInnerChar c = true :=
      fun c hc => IdSelector.isInnerChar_of_isNameChar (hchars c hc)
    have hselector : renamedSelector r ⟨v⟩ = '#' :: r.newName v := if_pos hv
    cases hstart : IdSelector.startsName v with
    | true =>
      refine ⟨v, r.newName v, ⟨hplace.hide_eq hchars, hinner, fun t ht => ?_⟩, hname.no_address,
        .inl ⟨rfl, rfl⟩⟩
      rw [renameSelectors_selector r hchars ht, hstart, if_pos rfl, hselector]
    | false =>
      refine ⟨v, v, ⟨hplace.hide_eq hchars, hinner, fun t ht => ?_⟩, haddress,
        .inr ⟨rfl, by omega⟩⟩
      rw [renameSelectors_selector r hchars ht, hstart, if_neg Bool.false_ne_true]
  | @placeholder p hp hids =>
    have hhidden : hidePlaceholders (front ++ '#' :: (p.text ++ back)) =
        hidePlaceholders front ++ '#' :: (p.hidden ++ hidePlaceholders back) := by
      have hwhole := hide_append_text hp (front ++ ['#']) back
      rw [hide_append_singleton (by decide)] at hwhole
      simpa using hwhole
    have hhash : '#' ∉ p.inner := by
      intro hmem
      refine hname.no_hash (hwithin.subset ?_)
      simp [Placeholder.text, hmem]
    have hhides : Hides p.text p.hidden := .opening ((Hides.refl p.inner).append (.closing .nil))
    have hiff := hhides.infix_iff (c := 'u') (w := ['r', 'l', '(']) (forall_mem_of_all rfl)
      (forall_mem_of_all rfl)
    refine ⟨p.hidden, p.hidden, ⟨hhidden, ?_, fun t ht => renameSelectors_hidden r hids hhash ht⟩,
      fun hmem => haddress (hiff.2 hmem),
      .inr ⟨rfl, ?_⟩⟩
    · refine List.forall_mem_append.2 ⟨List.forall_mem_append.2 ⟨forall_mem_of_all rfl, hp⟩,
        forall_mem_of_all rfl⟩
    · simp only [Placeholder.hidden, Placeholder.text, openMarker, closeMarker,
        List.length_append, List.length_cons, List.length_nil]
      omega

/-- **Which selectors follow.** A definition gets the new name of its identifier. A selector of the
same identifier gets it too if the identifier begins with an ASCII letter or an underscore, perhaps
behind a hyphen, and no marker can be read in the new name. In every other case it does not. -/
theorem selector_follows_iff {v front back : Text} (hv : v ∈ r.ids) (hform : IsSelectable r v)
    (hname : HoldsNoReference (r.newName v)) (hplace : IsSelectorPlace front back) :
    (∀ q, isQuote q = true → q ∉ v → '\n' ∉ v →
      r.apply (['i', 'd', '='] ++ q :: v ++ [q]) = ['i', 'd', '='] ++ q :: r.newName v ++ [q]) ∧
    ∃ x, renameReferences r (front ++ ['\x7b']) = x ++ ['\x7b'] ∧
      (renameReferences r (front ++ '#' :: (v ++ back)) =
          x ++ '#' :: (r.newName v ++ renameReferences r back) ↔
        IdSelector.startsName v = true ∧ ¬ openMarker <:+: r.newName v ∧
          ¬ closeMarker <:+: r.newName v) := by
  refine ⟨fun q hq hqv hline => apply_definition hv hform.trim_eq_self hname hq hqv hline, ?_⟩
  obtain ⟨m, n, hbecomes, hn, hcases⟩ := hform.exists_becomesIn hv hname hplace
  obtain ⟨x, hfront, hwhole⟩ := hbecomes.exists_renameReferences (List.ne_nil_of_mem hv)
    (fun name _ hchars => hname.of_newName hchars) hplace hn
  refine ⟨x, hfront, ?_⟩
  rw [hwhole, List.append_cancel_left_eq, List.cons.injEq, List.append_cancel_right_eq]
  rcases hcases with ⟨hstart, rfl⟩ | ⟨hstart, hlength⟩
  · rw [hstart, restore_eq_self_iff]
    simp
  · rw [hstart]
    have hne : restorePlaceholders n ≠ r.newName v := by
      intro he
      have hle := (Hides.restore n).length_le
      rw [he] at hle
      simp only [Renaming.newName, List.length_append, List.length_cons, List.length_nil] at hle
      omega
    simp [hne]

/-- The selector of an ASCII name follows. -/
theorem selector_follows_ascii :
    renameReferences ⟨["a".toList], "h1".toList, "uuid".toList⟩ "#a\x7bfill:red\x7d".toList =
      "#h1-a-\x7b\x7buuid\x7d\x7d\x7bfill:red\x7d".toList := by
  have hplace : IsSelectorPlace [] "\x7bfill:red\x7d".toList := {
    address_closed := by
      rintro ⟨a, b, h, -⟩
      simp [addressStart] at h
    ends := by
      have hhead : (hidePlaceholders "\x7bfill:red\x7d".toList).head? = some '\x7b' := by
        decide +kernel
      rw [hhead]
      rintro c ⟨⟩
      decide
    opens_block := by decide +kernel }
  obtain ⟨-, x, hx, hfollows⟩ := selector_follows_iff
    (r := ⟨["a".toList], "h1".toList, "uuid".toList⟩) (v := "a".toList) (by decide)
    (.name (forall_mem_of_all rfl)) ⟨by decide, by decide⟩ hplace
  have hfront :
      renameReferences ⟨["a".toList], "h1".toList, "uuid".toList⟩ ['\x7b'] = ['\x7b'] := by
    decide +kernel
  have hback : renameReferences ⟨["a".toList], "h1".toList, "uuid".toList⟩
      "\x7bfill:red\x7d".toList = "\x7bfill:red\x7d".toList := by
    decide +kernel
  obtain rfl : [] = x := List.append_cancel_right (hfront.symm.trans hx)
  exact (hfollows.2 (by decide +kernel)).trans (by rw [hback]; rfl)

/-- A name may begin with any letter, but only an ASCII one is read as the name of a selector: the
element is renamed, and the rule that selected it is not. -/
theorem selector_not_follows :
    (⟨["é".toList], "h1".toList, "uuid".toList⟩ : Renaming).apply "id='é'".toList =
        "id='h1-é-\x7b\x7buuid\x7d\x7d'".toList ∧
      renameReferences ⟨["é".toList], "h1".toList, "uuid".toList⟩ "#é\x7bfill:red\x7d".toList ≠
        "#h1-é-\x7b\x7buuid\x7d\x7d\x7bfill:red\x7d".toList := by
  decide +kernel

end SvgAssets.Stylesheet
