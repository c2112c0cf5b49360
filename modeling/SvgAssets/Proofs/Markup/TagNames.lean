/-
# SvgAssets.Proofs.Markup.TagNames -- names of tags through compaction

Compaction takes away white space at the ends of a tag and beside slashes, and so it may bring a
name to the front of its tag. Where none stands in front of a name, a compacted tag has the name
that it had before (`exists_of_compactTag_eq`, `exists_of_compactTag_eq_slash`).
-/
import SvgAssets.Proofs.Markup.ElementRemoval
import SvgAssets.Proofs.Markup.TagCompaction

namespace SvgAssets.Markup

open Text

variable {c d : Char} {s t : Text}

/-! ## Text between quoted values -/

/-- White space is taken away where it stands beside a mark, and is a space otherwise. -/
theorem eq_of_head?_compactUnquoted (h : d ∈ (compactUnquoted s).head?) :
    d = '/' ∨ d = '=' ∨ d ∈ (squeezeBlanks s).head? := by
  rcases head?_tighten (not_space_of_mark (by decide)) h with hmark | h
  · exact .inr (.inl (by simpa using hmark))
  · rcases head?_tighten (not_space_of_mark (by decide)) h with hmark | h
    · exact .inl (by simpa using hmark)
    · exact .inr (.inr h)

theorem squeezeBlanks_cons (hc : isBlank c = false) (s : Text) :
    squeezeBlanks (c :: s) = c :: squeezeBlanks s := by
  simp [squeezeBlanks, collapseRuns, hc]

theorem head?_squeezeBlanks (h : ∀ c ∈ s.head?, isBlank c = false) :
    (squeezeBlanks s).head? = s.head? := by
  cases s with
  | nil => rfl
  | cons c s => rw [squeezeBlanks_cons (h c rfl), List.head?_cons, List.head?_cons]

theorem compactUnquoted_cons (hc : isBlank c = false) (hmark : c ≠ '/' ∧ c ≠ '=') (s : Text) :
    compactUnquoted (c :: s) = c :: compactUnquoted s := by
  have hspace : c ≠ ' ' := by
    rintro rfl
    exact absurd hc (by decide)
  simp [compactUnquoted, squeezeBlanks_cons hc, tighten, hmark.1, hmark.2, hspace]

theorem compactUnquoted_slash_cons (h : ∀ c ∈ s.head?, isBlank c = false) :
    compactUnquoted ('/' :: s) = '/' :: compactUnquoted s := by
  have hbehind : tighten (· == '/') (· == ' ') true (squeezeBlanks s) =
      tighten (· == '/') (· == ' ') false (squeezeBlanks s) := by
    refine tighten_behind fun c hc => ?_
    rw [head?_squeezeBlanks h] at hc
    rw [beq_eq_false_iff_ne]
    rintro rfl
    exact absurd (h ' ' hc) (by decide)
  have hslash : tighten (· == '/') (· == ' ') false ('/' :: squeezeBlanks s) =
      '/' :: tighten (· == '/') (· == ' ') true (squeezeBlanks s) := by
    simp [tighten]
  rw [compactUnquoted, compactUnquoted, squeezeBlanks_cons (by decide), hslash, hbehind]
  simp [tighten]

theorem compactUnquoted_ne_nil (h : s ≠ []) : compactUnquoted s ≠ [] := by
  exact tighten_ne_nil (not_space_of_mark (by decide))
    (tighten_ne_nil (not_space_of_mark (by decide)) (collapseRuns_ne_nil h))

theorem head?_compactUnquoted_cons (hc : isBlank c = false) (s : Text) :
    (compactUnquoted (c :: s)).head? = some c := by
  have hspace : (c == ' ') = false := by
    rw [beq_eq_false_iff_ne]
    rintro rfl
    exact absurd hc (by decide)
  have hslash : (tighten (· == '/') (· == ' ') false (squeezeBlanks (c :: s))).head? = some c := by
    rw [squeezeBlanks_cons hc]
    exact head?_tighten_cons hspace
  cases htight : tighten (· == '/') (· == ' ') false (squeezeBlanks (c :: s)) with
  | nil =>
    rw [htight] at hslash
    cases hslash
  | cons e t =>
    rw [htight] at hslash
    cases hslash
    rw [compactUnquoted, htight]
    exact head?_tighten_cons hspace

theorem filter_not_isBlank_compactUnquoted (s : Text) :
    (compactUnquoted s).filter (fun c => !isBlank c) = s.filter fun c => !isBlank c := by
  have hspace : ∀ c : Char, (c == ' ') = true → (!isBlank c) = false := by
    intro c hc
    rw [beq_iff_eq.1 hc]
    rfl
  rw [compactUnquoted, filter_tighten hspace, filter_tighten hspace]
  exact filter_collapseRuns rfl fun c hc => by rw [hc]; rfl

/-! ## The inside of a tag -/

/-- The inside of a tag, compacted but for the spaces at its ends. -/
abbrev compactInside (s : Text) : Text := QuotedValue.pattern.mapBetween compactUnquoted s

theorem compactInside_nil : compactInside [] = [] := by
  rw [compactInside, Pattern.mapBetween_eq, Pattern.scan, Pattern.scanFrom]
  rfl

/-- A character that is no quote is compacted with the text up to the first quoted value. -/
theorem exists_compactInside_cons (h : QuotedValue.read (c :: s) = none) :
    ∃ lead t, compactInside (c :: s) = compactUnquoted (c :: lead) ++ t ∧
      compactInside s = compactUnquoted lead ++ t ∧ lead <+: s := by
  have hnone : QuotedValue.pattern.read none (c :: s) = none := h
  have hscan : QuotedValue.pattern.scan (c :: s) = .plain c :: QuotedValue.pattern.scan s :=
    (QuotedValue.pattern.scanFrom_of_none hnone).trans
      (congrArg _ (QuotedValue.pattern.scanFrom_congr (fun _ _ _ => rfl) _ none s))
  refine ⟨_, _, ?_, QuotedValue.pattern.mapBetween_eq compactUnquoted s, ?_⟩
  · rw [compactInside, Pattern.mapBetween_eq, hscan]
    rfl
  · have htext := (Pattern.text_spansOf (QuotedValue.pattern.scan s)).trans
      (QuotedValue.pattern.text_scan s)
    exact ⟨_, htext⟩

/-- What is no white space stays in front. -/
theorem head?_compactInside_cons (hc : isBlank c = false) (s : Text) :
    (compactInside (c :: s)).head? = some c := by
  cases hread : QuotedValue.pattern.read none (c :: s) with
  | none =>
    obtain ⟨lead, t, hinside, -, -⟩ := exists_compactInside_cons hread
    rw [hinside, List.head?_append, head?_compactUnquoted_cons hc]
    rfl
  | some found =>
    obtain ⟨v, rest⟩ := found
    obtain ⟨rfl, -⟩ := List.cons.inj (QuotedValue.text_of_read hread)
    have hscan := QuotedValue.pattern.scanFrom_of_read hread
    rw [compactInside, Pattern.mapBetween_eq, Pattern.scan, hscan]
    rfl

/-- White space is taken away in front of a mark, or leaves a space. -/
theorem isBoundary_of_head?_compactInside (hc : isBlank c = true)
    (hd : d ∈ (compactInside (c :: s)).head?) : isBoundary d = true := by
  have hread : QuotedValue.read (c :: s) = none :=
    QuotedValue.read_cons_eq_none_iff.2 (by simp [not_isQuote_of_isBlank hc])
  obtain ⟨lead, t, hinside, -, -⟩ := exists_compactInside_cons hread
  have hhead : d ∈ (compactUnquoted (c :: lead)).head? := by
    have hne := compactUnquoted_ne_nil (List.cons_ne_nil c lead)
    obtain ⟨e, u, he⟩ := List.exists_cons_of_ne_nil hne
    rw [hinside, he] at hd
    rw [he]
    exact hd
  rcases eq_of_head?_compactUnquoted hhead with rfl | rfl | hsqueeze
  · rfl
  · rfl
  · -- All white space has become spaces.
    rw [squeezeBlanks, collapseRuns, if_pos hc, if_neg Bool.false_ne_true] at hsqueeze
    cases hsqueeze
    rfl

/-- A name at the front was there before. -/
theorem exists_of_compactInside_eq {form : Text} (hform : ∀ c ∈ form, isBoundary c = false)
    (h : compactInside s = form ++ t) : ∃ s', s = form ++ s' ∧ compactInside s' = t := by
  induction form generalizing s with
  | nil => exact ⟨s, rfl, h⟩
  | cons c form ih =>
    rw [List.forall_mem_cons] at hform
    cases s with
    | nil =>
      rw [compactInside_nil] at h
      cases h
    | cons d s =>
      cases hd : isBlank d with
      | true =>
        have hboundary := isBoundary_of_head?_compactInside (d := c) (s := s) hd (by rw [h]; rfl)
        rw [hform.1] at hboundary
        cases hboundary
      | false =>
        have hhead := head?_compactInside_cons hd s
        rw [h] at hhead
        cases hhead
        have hparts := hform.1
        simp only [isBoundary, Bool.or_eq_false_iff, beq_eq_false_iff_ne, decide_eq_false_iff_not]
          at hparts
        have hread : QuotedValue.read (c :: s) = none :=
          QuotedValue.read_cons_eq_none_iff.2 (by simp [hparts.1.1.1.2])
        obtain ⟨lead, u, hinside, hbehind, -⟩ := exists_compactInside_cons hread
        have hequals : c ≠ '=' := by
          rintro rfl
          exact hparts.2 (by decide)
        rw [hinside, compactUnquoted_cons hd ⟨hparts.1.1.2, hequals⟩, List.cons_append,
          List.cons_append, List.cons.injEq] at h
        obtain ⟨s', rfl, ht⟩ := ih hform.2 (hbehind.trans h.2)
        exact ⟨s', rfl, ht⟩

/-- A slash at the front with no white space behind it. -/
theorem compactInside_slash_cons (h : ∀ c ∈ s.head?, isBlank c = false) :
    compactInside ('/' :: s) = '/' :: compactInside s := by
  have hread : QuotedValue.read ('/' :: s) = none :=
    QuotedValue.read_cons_eq_none_iff.2 (by simp [isQuote])
  obtain ⟨lead, t, hinside, hbehind, hlead⟩ := exists_compactInside_cons hread
  have hhead : ∀ c ∈ lead.head?, isBlank c = false := by
    obtain ⟨u, rfl⟩ := hlead
    intro c hc
    refine h c ?_
    rw [List.head?_append, Option.mem_def.1 hc]
    rfl
  rw [hinside, hbehind, compactUnquoted_slash_cons hhead, List.cons_append]

/-- Attributes begin with white space if they do so when they are compacted. -/
theorem admitsAny_of_compactInside (h : Attributes.admitsAny (compactInside s) = true) :
    Attributes.admitsAny s = true := by
  rw [Attributes.admitsAny_iff] at h ⊢
  intro c hc
  cases s with
  | nil => cases hc
  | cons d s =>
    cases hc
    by_contra hblank
    rw [Bool.not_eq_true] at hblank
    rw [h c (head?_compactInside_cons hblank s)] at hblank
    cases hblank

/-- The inside of a tag that begins with no white space, compacted, begins the inside before its end
was cut off. -/
theorem exists_compactInside_eq (h : ∀ c ∈ s.head?, isBlank c = false) :
    ∃ w, compactInside s = compactTag s ++ w ∧ ∀ c ∈ w, isBlank c = true := by
  have hspace : ∀ {w : Text}, (∀ c ∈ w, (c == ' ') = true) → ∀ c ∈ w, isBlank c = true := by
    intro w hw c hc
    rw [beq_iff_eq.1 (hw c hc)]
    rfl
  obtain ⟨v, w, hinside, hv, hw⟩ := exists_eq_append_dropAround (· == ' ') (compactInside s)
  refine ⟨w, ?_, hspace hw⟩
  cases v with
  | nil => exact hinside
  | cons d v =>
    have hblank := hspace hv d (List.mem_cons_self ..)
    cases s with
    | nil =>
      rw [compactInside_nil] at hinside
      cases hinside
    | cons c s =>
      have hhead := head?_compactInside_cons (h c rfl) s
      rw [hinside, List.cons_append, List.cons_append, List.head?_cons, Option.some.injEq] at hhead
      rw [hhead, h c rfl] at hblank
      cases hblank

/-- The name of an opening tag was there before, and so was the white space behind it. -/
theorem exists_of_compactTag_eq {form : Text} (hform : ∀ c ∈ form, isBoundary c = false)
    (hs : ∀ c ∈ s.head?, isBlank c = false) (h : compactTag s = form ++ t)
    (ht : Attributes.admitsAny t = true) :
    ∃ s', s = form ++ s' ∧ Attributes.admitsAny s' = true := by
  obtain ⟨w, hinside, hw⟩ := exists_compactInside_eq hs
  rw [h, List.append_assoc] at hinside
  obtain ⟨s', rfl, hs'⟩ := exists_of_compactInside_eq hform hinside
  refine ⟨s', rfl, admitsAny_of_compactInside ?_⟩
  rw [Attributes.admitsAny_iff] at ht ⊢
  rw [hs']
  intro c hc
  cases t with
  | nil => exact hw c (List.mem_of_head? hc)
  | cons d t => exact ht c hc

/-- The name of a closing tag was there before, and nothing but white space behind it. -/
theorem exists_of_compactTag_eq_slash {form : Text} (hform : ∀ c ∈ form, isBoundary c = false)
    (hs : ∀ c ∈ s.head?, isBlank c = false) (hslash : ∀ c, isBlank c = true → ¬ ['/', c] <+: s)
    (h : compactTag s = '/' :: (form ++ t)) (ht : ∀ c ∈ t, isBlank c = true) :
    ∃ s', s = '/' :: (form ++ s') ∧ ∀ c ∈ s', isBlank c = true := by
  obtain ⟨w, hinside, hw⟩ := exists_compactInside_eq hs
  rw [h] at hinside
  cases s with
  | nil =>
    rw [compactInside_nil] at hinside
    cases hinside
  | cons d s =>
    have hhead := head?_compactInside_cons (hs d rfl) s
    rw [hinside] at hhead
    cases hhead
    have hbehind : ∀ c ∈ s.head?, isBlank c = false := by
      intro c hc
      rw [← Bool.not_eq_true]
      intro hblank
      cases s with
      | nil => cases hc
      | cons e s =>
        cases hc
        exact hslash c hblank ⟨s, rfl⟩
    rw [compactInside_slash_cons hbehind, List.cons_append, List.cons.injEq, List.append_assoc]
      at hinside
    obtain ⟨s', rfl, hs'⟩ := exists_of_compactInside_eq hform hinside.2
    refine ⟨s', rfl, fun c hc => ?_⟩
    -- Compaction takes away nothing but white space.
    have hfilter := Pattern.filter_mapBetween (p := QuotedValue.pattern)
      filter_not_isBlank_compactUnquoted s'
    rw [show QuotedValue.pattern.mapBetween compactUnquoted s' = t ++ w from hs',
      List.filter_eq_nil_iff.2] at hfilter
    · have hnone := List.filter_eq_nil_iff.1 hfilter.symm c hc
      simpa using hnone
    · intro e he
      have hblank := List.forall_mem_append.2 ⟨ht, hw⟩ e he
      simp [hblank]

end SvgAssets.Markup
