/-
# SvgAssets.Proofs.Markup.TagNormalForm -- what compacting keeps of a tag

What stands between the angle brackets of a tag is a sequence of texts with quoted values between
them; a quote that does not come again belongs to a text. Compacting keeps the values, and of each
text the characters that are no white space, and brings the texts into a normal form
(`compactTag_normalForm`).

The texts are compacted one by one, which leaves the values where they are. To drop a space at an
end is to drop it from the first or the last text, since no value begins or ends with a space;
`SameButSpace` is what both steps keep.
-/
import SvgAssets.Proofs.Markup.TagNames

namespace SvgAssets

/-! ## Texts outside of tokens -/

namespace Pattern

variable {α : Type}

/-- The texts outside of tokens: in front of the first, between any two, and behind the last. -/
def textsOf (pieces : List (Piece α)) : List Text :=
  (spansOf pieces).1 :: (spansOf pieces).2.map (·.2)

/-- The tokens among pieces. -/
def tokensOf (pieces : List (Piece α)) : List α := (spansOf pieces).2.map (·.1)

theorem tokens_eq (p : Pattern α) (s : Text) : p.tokens s = tokensOf (p.scan s) := by
  rw [tokens, tokensOf]
  generalize p.scan s = pieces
  induction pieces with
  | nil => rfl
  | cons piece pieces ih =>
    cases piece with
    | plain c => exact ih
    | token a => exact congrArg (a :: ·) ih

theorem forall_mem_textsOf {P : Text → Prop} {pieces : List (Piece α)}
    (h : EachBetween P P pieces) : ∀ w ∈ textsOf pieces, P w := by
  rw [textsOf, List.forall_mem_cons, List.forall_mem_map]
  exact h

/-- Of a text, the characters of a class. -/
abbrev keep (q : Char → Bool) (pieces : List (Piece α)) : List Text :=
  (textsOf pieces).map fun w => w.filter q

theorem keep_plain_cons {q : Char → Bool} {c : Char} (hc : q c = false)
    (pieces : List (Piece α)) : keep q (.plain c :: pieces) = keep q pieces := by
  simp [keep, textsOf, spansOf, hc]

/-- A character outside of the class counts at the end of the last text as little as elsewhere. -/
theorem keep_append_plain {q : Char → Bool} {c : Char} (hc : q c = false)
    (pieces : List (Piece α)) : keep q (pieces ++ [.plain c]) = keep q pieces := by
  induction pieces with
  | nil => exact keep_plain_cons hc []
  | cons piece pieces ih =>
    simp only [keep, textsOf, List.map_cons, List.cons.injEq] at ih
    cases piece with
    | plain d => simp [keep, textsOf, spansOf, List.filter_cons, ih.1, ih.2]
    | token a => simp [keep, textsOf, spansOf, ih.1, ih.2]

theorem tokensOf_append_plain (pieces : List (Piece α)) (c : Char) :
    tokensOf (pieces ++ [.plain c]) = tokensOf pieces := by
  induction pieces with
  | nil => rfl
  | cons piece pieces ih =>
    cases piece with
    | plain d => exact ih
    | token a => exact congrArg (a :: ·) ih

end Pattern

namespace Markup

open Text Pattern

/-! ## Quoted values and what stands outside -/

namespace QuotedValue

/-- The texts of a tag outside of quoted values. -/
def textsOutside (s : Text) : List Text := textsOf (pattern.scan s)

/-- Two tags have the same quoted values, and outside of them the same characters that are no white
space, text by text. -/
structure SameButSpace (s t : Text) : Prop where
  tokens : pattern.tokens s = pattern.tokens t
  solid : (textsOutside s).map (fun w => w.filter fun c => !isBlank c) =
    (textsOutside t).map fun w => w.filter fun c => !isBlank c

theorem SameButSpace.trans {s t u : Text} (h : SameButSpace s t) (h' : SameButSpace t u) :
    SameButSpace s u := ⟨h.tokens.trans h'.tokens, h.solid.trans h'.solid⟩

/-- A space in front stands outside of all values. -/
theorem sameButSpace_space_cons (s : Text) : SameButSpace s (' ' :: s) := by
  constructor
  · rw [tokens_eq, tokens_eq, scan_cons rfl]
    rfl
  · rw [textsOutside, textsOutside, scan_cons rfl]
    exact (keep_plain_cons rfl _).symm

/-- A space at the end stands outside of all values. -/
theorem sameButSpace_append_space (s : Text) : SameButSpace s (s ++ [' ']) := by
  have hscan : pattern.scan (s ++ [' ']) = pattern.scan s ++ [.plain ' '] :=
    scanFrom_append_singleton rfl none s
  constructor
  · rw [tokens_eq, tokens_eq, hscan, tokensOf_append_plain]
  · rw [textsOutside, textsOutside, hscan]
    exact (keep_append_plain rfl _).symm

/-- Compacting the texts one by one leaves the values alone, and all that is no white space. -/
theorem sameButSpace_compactInside (s : Text) : SameButSpace (compactInside s) s := by
  have hspans := spansOf_scan_mapBetween filter_isQuote_compactUnquoted s
  constructor
  · rw [tokens_eq, tokens_eq, tokensOf, hspans, List.map_map]
    rfl
  · rw [textsOutside, textsOutside, textsOf, hspans]
    simp [textsOf, filter_not_isBlank_compactUnquoted]

theorem sameButSpace_compactTag (s : Text) : SameButSpace (compactTag s) s := by
  refine dropAround_induct (P := fun t => SameButSpace t s) ?_ ?_ (sameButSpace_compactInside s)
  · intro c w hc h
    rw [beq_iff_eq.1 hc] at h
    exact (sameButSpace_space_cons w).trans h
  · intro c w hc h
    rw [beq_iff_eq.1 hc] at h
    exact (sameButSpace_append_space w).trans h

end QuotedValue

/-! ## The normal form -/

/-- The inside of a tag is in normal form: the texts outside of quoted values have no white space
but single spaces, none of these stands beside a slash or an equals sign, and none at an end. -/
structure IsCompactTag (s : Text) : Prop where
  isNeat : ∀ w ∈ QuotedValue.textsOutside s, IsNeat w
  head : s.head? ≠ some ' '
  last : s.getLast? ≠ some ' '

theorem isCompactTag_compactTag (s : Text) : IsCompactTag (compactTag s) where
  isNeat := forall_mem_textsOf (eachBetween_isNeat_compactTag s)
  head hhead := absurd (head?_dropAround ' ' hhead) (by decide)
  last hlast := absurd (getLast?_dropAround ' ' hlast) (by decide)

/-- **Compacting a tag.** The quoted values stay as they are, and so do, text by text, the
characters between them that are no white space; what comes out is in normal form; and it is left
alone when it is compacted again. -/
theorem compactTag_normalForm (s : Text) :
    QuotedValue.pattern.tokens (compactTag s) = QuotedValue.pattern.tokens s ∧
      (QuotedValue.textsOutside (compactTag s)).map (fun w => w.filter fun c => !isBlank c) =
        (QuotedValue.textsOutside s).map (fun w => w.filter fun c => !isBlank c) ∧
      IsCompactTag (compactTag s) ∧ compactTag (compactTag s) = compactTag s := by
  obtain ⟨htokens, hsolid⟩ := QuotedValue.sameButSpace_compactTag s
  exact ⟨htokens, hsolid, isCompactTag_compactTag s, compactTag_compactTag s⟩

-- A value with spaces in it, a slash between spaces, and a quote that does not come again.
example : compactTag " a =\t' b  '  c / \" = d ".toList = "a=' b  ' c/\"=d".toList := by
  decide +kernel

end Markup

end SvgAssets
