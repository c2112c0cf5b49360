/-
# SvgAssets.Proofs.Markup.TagCompaction -- compacting the inside of a tag

Compacting works on the texts between quoted values and puts the values back in between. Nothing of
this moves a quote, and quotes are all that a scan for quoted values goes by
(`silent_iff_filter`), so a scan of the compacted inside finds the same values with the compacted
texts between them (`spansOf_scanFrom_map`). These texts are in a normal form, `IsNeat`, that
compacting keeps as it is and that survives the removal of spaces at both ends. So compacting the
inside of a tag twice is the same as doing it once.
-/
import SvgAssets.Markup.Compact
import SvgAssets.Proofs.Markup.Tokens
import SvgAssets.Proofs.Text.Spacing

namespace SvgAssets

/-! ## Texts between tokens -/

namespace Pattern

variable {α : Type} {p : Pattern α}

/-- The text of tokens, each with the text behind it. -/
def spansText (p : Pattern α) (spans : List (α × Text)) : Text :=
  spans.flatMap fun (a, behind) => p.text a ++ behind

theorem mapBetween_eq (f : Text → Text) (s : Text) :
    p.mapBetween f s = f (spansOf (p.scan s)).1 ++
      p.spansText ((spansOf (p.scan s)).2.map fun (a, behind) => (a, f behind)) := by
  rw [mapBetween, spansText, List.flatMap_map]

/-- Pieces printed one by one are the spans printed one by one. -/
theorem flatMap_replacement (f : α → Text) (pieces : List (Piece α)) :
    pieces.flatMap (replacement f) =
      (spansOf pieces).1 ++ (spansOf pieces).2.flatMap fun (a, behind) => f a ++ behind := by
  induction pieces with
  | nil => rfl
  | cons piece pieces ih =>
    rw [List.flatMap_cons, ih]
    cases piece with
    | plain c => rfl
    | token a => simp [replacement, spansOf]

theorem text_spansOf (pieces : List (Piece α)) :
    (spansOf pieces).1 ++ p.spansText (spansOf pieces).2 = pieces.flatMap p.pieceText :=
  (flatMap_replacement p.text pieces).symm

theorem spansOf_plain_append (w : Text) (pieces : List (Piece α)) :
    spansOf (w.map .plain ++ pieces) = (w ++ (spansOf pieces).1, (spansOf pieces).2) := by
  induction w with
  | nil => rfl
  | cons c w ih => simp [spansOf, ih]

/-- Texts between tokens are worked on one by one. -/
theorem mapBetween_append (hback : ∀ prev prev' s, p.read prev s = p.read prev' s)
    (f : Text → Text) {u s rest : Text} {a : α} (hu : p.Silent none u s)
    (hread : p.read none s = some (a, rest)) :
    p.mapBetween f (u ++ s) = f u ++ (p.text a ++ p.mapBetween f rest) := by
  have hscan : p.scan (u ++ s) = u.map .plain ++ .token a :: p.scan rest := by
    rw [scan, p.scanFrom_append_of_silent hu, p.scanFrom_congr hback _ none,
      p.scanFrom_of_read hread, p.scanFrom_congr hback _ none, scan]
  rw [mapBetween_eq, mapBetween_eq, hscan, spansOf_plain_append]
  simp [spansOf, spansText]

theorem mapBetween_of_silent {u : Text} (h : p.Silent none u []) (f : Text → Text) :
    p.mapBetween f u = f u := by
  have hspans := spansOf_plain_append (α := α) u []
  rw [List.append_nil] at hspans
  rw [mapBetween_eq, p.scan_of_silent h, hspans]
  simp [spansOf, spansText]

/-- The text in front of the first token is of the first kind, those behind tokens of the second. -/
def EachBetween (P Q : Text → Prop) (pieces : List (Piece α)) : Prop :=
  P (spansOf pieces).1 ∧ ∀ x ∈ (spansOf pieces).2, Q x.2

/-- What changes no text between tokens changes nothing. -/
theorem mapBetween_eq_self {f : Text → Text} {s : Text}
    (h : EachBetween (fun w => f w = w) (fun w => f w = w) (p.scan s)) : p.mapBetween f s = s := by
  have hmap : ((spansOf (p.scan s)).2.map fun (a, behind) => (a, f behind)) =
      (spansOf (p.scan s)).2 := by
    rw [List.map_congr_left (g := id), List.map_id]
    intro x hx
    exact Prod.ext rfl (h.2 x hx)
  rw [mapBetween_eq, h.1, hmap, text_spansOf, text_scan]

theorem EachBetween.imp {P Q P' Q' : Text → Prop} {pieces : List (Piece α)}
    (h : EachBetween P Q pieces) (hP : ∀ w, P w → P' w) (hQ : ∀ w, Q w → Q' w) :
    EachBetween P' Q' pieces :=
  ⟨hP _ h.1, fun x hx => hQ _ (h.2 x hx)⟩

/-- A kind of text that goes on being of this kind without its last character. -/
theorem EachBetween.of_append_plain {P Q : Text → Prop} {pieces : List (Piece α)} {c : Char}
    (hP : ∀ w d, P (w ++ [d]) → P w) (hQ : ∀ w d, Q (w ++ [d]) → Q w)
    (h : EachBetween P Q (pieces ++ [.plain c])) : EachBetween P Q pieces := by
  induction pieces generalizing P with
  | nil => exact ⟨hP [] c h.1, h.2⟩
  | cons piece pieces ih =>
    cases piece with
    | plain d => exact @ih (fun w => P (d :: w)) (fun w e => hP (d :: w) e) h
    | token a =>
      obtain ⟨hlead, hspans⟩ := h
      have hrest : EachBetween Q Q (pieces ++ [.plain c]) :=
        ⟨hspans _ (List.mem_cons_self ..), fun x hx => hspans x (List.mem_cons_of_mem _ hx)⟩
      obtain ⟨hfirst, hrest⟩ := ih hQ hrest
      exact ⟨hlead, List.forall_mem_cons.2 ⟨hfirst, hrest⟩⟩

theorem mem_of_mem_mapBetween {f : Text → Text} {d : Char} (hf : ∀ w, ∀ c ∈ f w, c ∈ w ∨ c = d)
    {s : Text} {c : Char} (h : c ∈ p.mapBetween f s) : c ∈ s ∨ c = d := by
  rw [← p.text_scan s, ← text_spansOf]
  rw [mapBetween_eq] at h
  simp only [spansText, List.mem_append, List.mem_flatMap] at h ⊢
  rcases h with h | ⟨x, hx, h⟩
  · exact (hf _ c h).imp_left .inl
  · obtain ⟨y, hy, rfl⟩ := List.mem_map.1 hx
    rcases h with h | h
    · exact .inl (.inr ⟨y, hy, .inl h⟩)
    · exact (hf _ c h).imp_left fun hc => .inr ⟨y, hy, .inr hc⟩

theorem filter_mapBetween {f : Text → Text} {q : Char → Bool}
    (hf : ∀ w, (f w).filter q = w.filter q) (s : Text) :
    (p.mapBetween f s).filter q = s.filter q := by
  have hspans : ∀ spans : List (α × Text),
      (p.spansText (spans.map fun (a, behind) => (a, f behind))).filter q =
        (p.spansText spans).filter q := by
    intro spans
    induction spans with
    | nil => rfl
    | cons x spans ih =>
      simp only [spansText, List.map_cons, List.flatMap_cons, List.filter_append, hf] at ih ⊢
      rw [ih]
  conv => rhs; rw [← p.text_scan s, ← text_spansOf]
  rw [mapBetween_eq, List.filter_append, List.filter_append, hf, hspans]

theorem length_mapBetween_le {f : Text → Text} (hf : ∀ w, (f w).length ≤ w.length) (s : Text) :
    (p.mapBetween f s).length ≤ s.length := by
  have hspans : ∀ spans : List (α × Text),
      (p.spansText (spans.map fun (a, behind) => (a, f behind))).length ≤
        (p.spansText spans).length := by
    intro spans
    induction spans with
    | nil => exact Nat.le_refl _
    | cons x spans ih =>
      have hx := hf x.2
      simp only [spansText, List.map_cons, List.flatMap_cons, List.length_append] at ih ⊢
      omega
  have hlead := hf (spansOf (p.scan s)).1
  have hs := congrArg List.length ((text_spansOf (p.scan s)).trans (p.text_scan s))
  have hrest := hspans (spansOf (p.scan s)).2
  rw [List.length_append] at hs
  rw [mapBetween_eq, List.length_append]
  omega

end Pattern

namespace Markup

open Text

/-! ## Quoted values -/

namespace QuotedValue

/-- The quote does not stand within the value. -/
structure IsProper (v : QuotedValue) : Prop where
  quote_isQuote : isQuote v.quote = true
  not_mem : v.quote ∉ v.inner

theorem isProper_of_read {s rest : Text} {v : QuotedValue} (h : read s = some (v, rest)) :
    v.IsProper := by
  simp only [read, Option.bind_eq_bind, Option.bind_eq_some_iff, Prod.exists,
    one?_eq_some_iff] at h
  obtain ⟨quote, s₁, ⟨rfl, hq⟩, inner, s₂, h₂, h⟩ := h
  cases h
  rcases breakAt?_cases quote s₁ with ⟨hnone, -⟩ | ⟨v, t, hsome, -, hv⟩
  · rw [hnone] at h₂
    cases h₂
  · rw [hsome] at h₂
    cases h₂
    exact ⟨hq, hv⟩

theorem read_text_append {v : QuotedValue} (h : v.IsProper) (rest : Text) :
    read (v.text ++ rest) = some (v, rest) := by
  have hbreak := breakAt?_append_cons h.not_mem rest
  simp [read, text, one?, h.quote_isQuote, hbreak]

/-- A quote that comes again begins a value, and nothing else does. -/
theorem read_cons_eq_none_iff {c : Char} {s : Text} :
    read (c :: s) = none ↔ (isQuote c = true → c ∉ s) := by
  cases hc : isQuote c with
  | false => simp [read, one?, hc]
  | true =>
    rcases breakAt?_cases c s with ⟨hnone, hs⟩ | ⟨v, t, hsome, rfl, -⟩
    · simp [read, one?, hc, hnone, hs]
    · simp [read, one?, hc, hsome]

/-- Only quotes decide where values stand. -/
theorem silent_iff_filter (prev prev' : Option Char) (w t : Text) :
    pattern.Silent prev w t ↔ pattern.Silent prev' (w.filter isQuote) (t.filter isQuote) := by
  induction w generalizing prev prev' with
  | nil => exact Iff.rfl
  | cons c w ih =>
    rw [Pattern.Silent, show pattern.read prev (c :: w ++ t) = read (c :: (w ++ t)) from rfl,
      read_cons_eq_none_iff]
    cases hc : isQuote c with
    | false =>
      rw [List.filter_cons_of_neg (by simp [hc]), ih (some c) prev']
      exact ⟨And.right, fun h => ⟨fun hf => absurd hf Bool.false_ne_true, h⟩⟩
    | true =>
      rw [List.filter_cons_of_pos hc, Pattern.Silent,
        show pattern.read prev' (c :: w.filter isQuote ++ t.filter isQuote) =
          read (c :: (w.filter isQuote ++ t.filter isQuote)) from rfl, read_cons_eq_none_iff,
        ih (some c) (some c), ← List.filter_append, List.mem_filter]
      simp [hc]

theorem silent_of_filter_eq {prev prev' : Option Char} {v w s t : Text}
    (h : pattern.Silent prev v s) (hv : v.filter isQuote = w.filter isQuote)
    (hs : s.filter isQuote = t.filter isQuote) : pattern.Silent prev' w t := by
  rw [silent_iff_filter prev none, hv, hs] at h
  exact (silent_iff_filter prev' none w t).2 h

/-- The values are written so that they can be read back, and none is read in the texts behind
them. -/
def AreSpans : List (QuotedValue × Text) → Prop
  | [] => True
  | (v, behind) :: spans =>
    v.IsProper ∧ pattern.Silent none behind (pattern.spansText spans) ∧ AreSpans spans

theorem areSpans_scanFrom (prev : Option Char) (s : Text) :
    pattern.Silent none (Pattern.spansOf (pattern.scanFrom prev s)).1
        (pattern.spansText (Pattern.spansOf (pattern.scanFrom prev s)).2) ∧
      AreSpans (Pattern.spansOf (pattern.scanFrom prev s)).2 := by
  fun_induction Pattern.scanFrom pattern prev s with
  | case1 => exact ⟨trivial, trivial⟩
  | case2 prev c s v rest h ih => exact ⟨trivial, isProper_of_read h, ih⟩
  | case3 prev c s h ih =>
    refine ⟨⟨?_, silent_of_filter_eq ih.1 rfl rfl⟩, ih.2⟩
    have htext : (Pattern.spansOf (pattern.scanFrom (some c) s)).1 ++
        pattern.spansText (Pattern.spansOf (pattern.scanFrom (some c) s)).2 = s :=
      (Pattern.text_spansOf _).trans (pattern.text_scanFrom (some c) s)
    rw [Pattern.spansOf, List.cons_append, htext]
    exact h

/-- A scan takes apart what has been put together. -/
theorem spansOf_scanFrom {lead : Text} {spans : List (QuotedValue × Text)}
    (hlead : pattern.Silent none lead (pattern.spansText spans)) (hspans : AreSpans spans)
    (prev : Option Char) :
    Pattern.spansOf (pattern.scanFrom prev (lead ++ pattern.spansText spans)) = (lead, spans) := by
  have hsilent : pattern.Silent prev lead (pattern.spansText spans) :=
    silent_of_filter_eq hlead rfl rfl
  rw [Pattern.scanFrom_append_of_silent _ hsilent, Pattern.spansOf_plain_append]
  generalize Pattern.behind prev lead = prev'
  clear hlead hsilent
  induction spans generalizing lead prev' with
  | nil => simp [Pattern.spansText, Pattern.scanFrom, Pattern.spansOf]
  | cons x spans ih =>
    obtain ⟨v, behind⟩ := x
    obtain ⟨hv, hbehind, hspans⟩ := hspans
    have hread : pattern.read prev' (pattern.spansText ((v, behind) :: spans)) =
        some (v, behind ++ pattern.spansText spans) := by
      rw [Pattern.spansText, List.flatMap_cons, List.append_assoc]
      exact read_text_append hv _
    have hsilent : pattern.Silent (pattern.text v).getLast? behind (pattern.spansText spans) :=
      silent_of_filter_eq hbehind rfl rfl
    have hrest := @ih behind hspans (Pattern.behind (pattern.text v).getLast? behind)
    rw [Prod.mk.injEq] at hrest
    rw [pattern.scanFrom_of_read hread, Pattern.scanFrom_append_of_silent _ hsilent,
      Pattern.spansOf, Pattern.spansOf_plain_append]
    simp only [hrest.1, hrest.2, List.append_nil]

section

variable {f : Text → Text} (hf : ∀ w, (f w).filter isQuote = w.filter isQuote)

include hf

theorem filter_spansText_map (spans : List (QuotedValue × Text)) :
    (pattern.spansText (spans.map fun (v, behind) => (v, f behind))).filter isQuote =
      (pattern.spansText spans).filter isQuote := by
  induction spans with
  | nil => rfl
  | cons x spans ih =>
    simp only [Pattern.spansText, List.map_cons, List.flatMap_cons, List.filter_append, hf] at ih ⊢
    rw [ih]

theorem AreSpans.map {spans : List (QuotedValue × Text)} (h : AreSpans spans) :
    AreSpans (spans.map fun (v, behind) => (v, f behind)) := by
  induction spans with
  | nil => trivial
  | cons x spans ih =>
    obtain ⟨hv, hbehind, hspans⟩ := h
    exact ⟨hv, silent_of_filter_eq hbehind (hf _).symm (filter_spansText_map hf spans).symm,
      ih hspans⟩

/-- Where the texts between values are changed without touching quotes, a scan finds the same values
again with the changed texts between them. -/
theorem spansOf_scan_mapBetween (s : Text) :
    Pattern.spansOf (pattern.scan (pattern.mapBetween f s)) =
      (f (Pattern.spansOf (pattern.scan s)).1,
        (Pattern.spansOf (pattern.scan s)).2.map fun (v, behind) => (v, f behind)) := by
  obtain ⟨hlead, hspans⟩ := areSpans_scanFrom none s
  rw [Pattern.mapBetween_eq, Pattern.scan]
  exact spansOf_scanFrom
    (silent_of_filter_eq hlead (hf _).symm (filter_spansText_map hf _).symm) (hspans.map hf) none

end

/-- A character in front that is no quote belongs to no value. -/
theorem scan_cons {c : Char} (hc : isQuote c = false) (s : Text) :
    pattern.scan (c :: s) = .plain c :: pattern.scan s := by
  have hnone : pattern.read none (c :: s) = none :=
    read_cons_eq_none_iff.2 fun hquote => by simp [hc] at hquote
  rw [Pattern.scan, Pattern.scanFrom_of_none _ hnone,
    Pattern.scanFrom_congr _ (fun _ _ _ => rfl) _ none, Pattern.scan]

/-- A character at the end that is no quote belongs to no value. -/
theorem scanFrom_append_singleton {c : Char} (hc : isQuote c = false) (prev : Option Char)
    (s : Text) : pattern.scanFrom prev (s ++ [c]) = pattern.scanFrom prev s ++ [.plain c] := by
  fun_induction Pattern.scanFrom pattern prev s with
  | case1 prev =>
    have hnone : pattern.read prev [c] = none := read_cons_eq_none_iff.2 (by simp)
    rw [List.nil_append, pattern.scanFrom_of_none hnone, Pattern.scanFrom]
    rfl
  | case2 prev d s v rest h ih =>
    have hread : pattern.read prev (d :: s ++ [c]) = some (v, rest ++ [c]) := by
      rw [text_of_read h, List.append_assoc]
      exact read_text_append (isProper_of_read h) _
    rw [pattern.scanFrom_of_read hread, ih, List.cons_append]
  | case3 prev d s h ih =>
    have hnone : pattern.read prev (d :: (s ++ [c])) = none := by
      refine read_cons_eq_none_iff.2 fun hd hmem => ?_
      rcases List.mem_append.1 hmem with hmem | hmem
      · exact read_cons_eq_none_iff.1 h hd hmem
      · rw [List.mem_singleton.1 hmem, hc] at hd
        cases hd
    rw [List.cons_append, pattern.scanFrom_of_none hnone, ih, List.cons_append]

end QuotedValue

/-! ## Texts between values -/

/-- No white space but single spaces, and none of them beside a slash or an equals sign. -/
structure IsNeat (w : Text) : Prop where
  eq_space : ∀ c ∈ w, isBlank c = true → c = ' '
  single : w.IsChain (NotBoth isBlank)
  slash : w.IsChain (NotBeside (· == '/') (· == ' '))
  equals : w.IsChain (NotBeside (· == '=') (· == ' '))

theorem IsNeat.of_isInfix {v w : Text} (h : IsNeat w) (hv : v <:+: w) : IsNeat v where
  eq_space c hc := h.eq_space c (hv.subset hc)
  single := h.single.infix hv
  slash := h.slash.infix hv
  equals := h.equals.infix hv

/-- A mark is no white space. -/
theorem not_space_of_mark {m : Char} (hm : m ≠ ' ') (c : Char) (hc : (c == m) = true) :
    (c == ' ') = false := by
  rw [beq_iff_eq.1 hc, beq_eq_false_iff_ne]
  exact hm

theorem isNeat_compactUnquoted (s : Text) : IsNeat (compactUnquoted s) := by
  have hslash := not_space_of_mark (m := '/') (by decide)
  have hequals := not_space_of_mark (m := '=') (by decide)
  have hblank : ∀ {m : Char}, isBlank m = false →
      ∀ c d : Char, (d == m) = true → NotBoth isBlank c d ∧ NotBoth isBlank d c := by
    intro m hm c d hd
    rw [beq_iff_eq.1 hd]
    exact ⟨fun h => absurd (h.2.symm.trans hm) (by decide),
      fun h => absurd (h.1.symm.trans hm) (by decide)⟩
  refine ⟨fun c hc hspace => ?_, ?_, ?_, isChain_tighten hequals⟩
  · exact eq_mark_of_mem_collapseRuns (tighten_sublist.subset (tighten_sublist.subset hc)) hspace
  · exact isChain_tighten_of_isChain hequals (hblank (by decide))
      (isChain_tighten_of_isChain hslash (hblank (by decide)) isChain_collapseRuns)
  · refine isChain_tighten_of_isChain hequals (fun c m hm => ?_) (isChain_tighten hslash)
    rw [beq_iff_eq.1 hm]
    exact ⟨⟨by simp, by simp⟩, ⟨by simp, by simp⟩⟩

theorem IsNeat.compactUnquoted_eq {w : Text} (h : IsNeat w) : compactUnquoted w = w := by
  have hsqueeze : squeezeBlanks w = w :=
    collapseRuns_eq_self h.eq_space h.single fun hf => absurd hf Bool.false_ne_true
  simp only [compactUnquoted]
  rw [hsqueeze, tighten_eq_self h.slash fun hf => absurd hf Bool.false_ne_true,
    tighten_eq_self h.equals fun hf => absurd hf Bool.false_ne_true]

theorem filter_isQuote_compactUnquoted (s : Text) :
    (compactUnquoted s).filter isQuote = s.filter isQuote := by
  have hspace : ∀ c : Char, (c == ' ') = true → isQuote c = false := by
    intro c hc
    rw [beq_iff_eq.1 hc]
    rfl
  rw [compactUnquoted, filter_tighten hspace, filter_tighten hspace]
  exact filter_collapseRuns rfl fun c => not_isQuote_of_isBlank

theorem mem_compactUnquoted (s : Text) : ∀ c ∈ compactUnquoted s, c ∈ s ∨ c = ' ' := by
  intro c hc
  exact mem_of_mem_collapseRuns (tighten_sublist.subset (tighten_sublist.subset hc))

theorem length_compactUnquoted_le (s : Text) : (compactUnquoted s).length ≤ s.length :=
  (tighten_sublist.length_le.trans tighten_sublist.length_le).trans length_collapseRuns_le

/-! ## The inside of a tag -/

theorem eachBetween_isNeat_compactTag (s : Text) :
    Pattern.EachBetween IsNeat IsNeat (QuotedValue.pattern.scan (compactTag s)) := by
  refine dropAround_induct
    (P := fun s => Pattern.EachBetween IsNeat IsNeat (QuotedValue.pattern.scan s)) ?_ ?_ ?_
  · intro c w hc h
    have hquote : isQuote c = false := by
      rw [beq_iff_eq.1 hc]
      rfl
    rw [QuotedValue.scan_cons hquote] at h
    exact ⟨h.1.of_isInfix (List.suffix_cons c _).isInfix, h.2⟩
  · intro c w hc h
    have hquote : isQuote c = false := by
      rw [beq_iff_eq.1 hc]
      rfl
    rw [Pattern.scan, QuotedValue.scanFrom_append_singleton hquote] at h
    have hneat : ∀ w d, IsNeat (w ++ [d]) → IsNeat w := fun w d hw =>
      hw.of_isInfix (List.prefix_append w [d]).isInfix
    exact h.of_append_plain hneat hneat
  · rw [Pattern.EachBetween,
      QuotedValue.spansOf_scan_mapBetween filter_isQuote_compactUnquoted]
    refine ⟨isNeat_compactUnquoted _, fun x hx => ?_⟩
    obtain ⟨y, -, rfl⟩ := List.mem_map.1 hx
    exact isNeat_compactUnquoted _

/-- **The inside of a tag is compacted in one go.** -/
theorem compactTag_compactTag (s : Text) : compactTag (compactTag s) = compactTag s := by
  have hsame : QuotedValue.pattern.mapBetween compactUnquoted (compactTag s) = compactTag s :=
    Pattern.mapBetween_eq_self ((eachBetween_isNeat_compactTag s).imp
      (fun _ hw => hw.compactUnquoted_eq) fun _ hw => hw.compactUnquoted_eq)
  rw [compactTag, hsame]
  exact dropAround_dropAround

/-- Nothing but spaces is put into a tag. -/
theorem mem_of_mem_compactTag {s : Text} {c : Char} (h : c ∈ compactTag s) : c ∈ s ∨ c = ' ' :=
  Pattern.mem_of_mem_mapBetween mem_compactUnquoted (dropAround_isInfix.subset h)

theorem length_compactTag_le (s : Text) : (compactTag s).length ≤ s.length :=
  dropAround_isInfix.length_le.trans (Pattern.length_mapBetween_le length_compactUnquoted_le s)

end Markup

end SvgAssets
