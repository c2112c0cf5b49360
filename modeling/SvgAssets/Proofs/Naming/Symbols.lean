/-
# SvgAssets.Proofs.Naming.Symbols -- symbols are identifiers

A symbol is the name of an asset without its separators, in Pascal case. No case mapping puts in a
separator, so none is left (`not_separator_of_mem_symbolName`). What a symbol begins with comes from
the first letter or number of the file's name, and case mappings keep its kind. A digit in front is
moved behind a letter, and all other numbers stay where they are: a symbol begins with a letter
unless the first letter or number is such a number (`symbolName_safeName`).
-/
import SvgAssets.Naming
import SvgAssets.Proofs.Text.CharacterClasses
import SvgAssets.Proofs.Text.Spacing

namespace SvgAssets.Naming

open Text

/-! ## Separators -/

/-- The characters that separate words, as ranges of code points. -/
def separatorRanges : List (Nat × Nat) := [(0x2d, 0x2e), (0x5f, 0x5f)] ++ blankRanges

theorem isWordSeparator_iff {c : Char} :
    isWordSeparator c = true ↔ isBlank c = true ∨ c = '_' ∨ c = '-' ∨ c = '.' := by
  simp only [isWordSeparator, Bool.or_eq_true, beq_iff_eq, or_assoc]

theorem isWordSeparator_eq (c : Char) : isWordSeparator c = inRanges separatorRanges c.toNat := by
  have happend : inRanges separatorRanges c.toNat =
      (inRanges [(0x2d, 0x2e), (0x5f, 0x5f)] c.toNat || isBlank c) := List.any_append
  rw [happend, Bool.eq_iff_iff, isWordSeparator_iff, Bool.or_eq_true, or_comm]
  apply or_congr_left
  rw [← Char.toNat_inj, ← Char.toNat_inj, ← Char.toNat_inj]
  simp only [inRanges, List.any_cons, List.any_nil, Bool.or_false, Bool.or_eq_true,
    Bool.and_eq_true, decide_eq_true_eq]
  show _ = 0x5f ∨ _ = 0x2d ∨ _ = 0x2e ↔ _
  omega

/-- A letter or number does not separate words. -/
theorem not_isWordSeparator_of_isAlphanumeric {c : Char} (h : isAlphanumeric c = true) :
    isWordSeparator c = false := by
  rw [isAlphanumeric_eq] at h
  rw [isWordSeparator_eq]
  refine inRanges_eq_false_of_bits ?_ h
  decide +kernel

/-- A character that does not separate words comes out as such characters. -/
def StaysWithin (c : Char) (image : Text) : Prop :=
  isWordSeparator c = false → ∀ d ∈ image, isWordSeparator d = false

/-- The check that the code points from `low` to `high` are characters that do not separate
words. -/
def areNoSeparators (low high : Nat) : Bool :=
  areValid low high && holdsNone (bits separatorRanges) low high

theorem not_isWordSeparator_ofNat {low high n : Nat} (h : areNoSeparators low high = true)
    (hlow : low ≤ n) (hhigh : n ≤ high) : isWordSeparator (Char.ofNat n) = false := by
  rw [areNoSeparators, Bool.and_eq_true] at h
  rw [isWordSeparator_eq, toNat_ofNat_of_areValid h.1 hlow hhigh]
  exact inRanges_of_holdsNone h.2 hlow hhigh

theorem staysWithin_ite {f : Char → Char} {runs : List CaseRun} {sequences : List (Nat × List Nat)}
    (hascii : MovesToAscii f)
    (hruns : (runs.all fun run =>
      areNoSeparators (run.image run.first) (run.image run.last)) = true)
    (hsequences : (sequences.all fun x => x.2.all fun n => areNoSeparators n n) = true) (c : Char) :
    StaysWithin c (if c.toNat < 0x80 then [f c] else mapCase runs sequences c) := by
  split
  · intro hword d hd
    rw [List.mem_singleton.1 hd]
    rcases hascii c with hself | himage
    · rwa [hself]
    · exact not_isWordSeparator_of_isAlphanumeric (isAlphanumeric_of_ascii himage)
  · apply mapCase_induct
    · intro c hc d hd
      rwa [List.mem_singleton.1 hd]
    · intro x hx c _ _ d hd
      obtain ⟨n, hn, rfl⟩ := List.mem_map.1 hd
      have hchecked := List.all_eq_true.1 (List.all_eq_true.1 hsequences x hx) n hn
      exact not_isWordSeparator_ofNat hchecked (Nat.le_refl n) (Nat.le_refl n)
    · intro run hrun c hc _ d hd
      obtain ⟨-, hlow, hhigh⟩ := CaseRun.bounds hc
      rw [List.mem_singleton.1 hd]
      exact not_isWordSeparator_ofNat (List.all_eq_true.1 hruns run hrun) hlow hhigh

theorem staysWithin_upperChar (c : Char) : StaysWithin c (upperChar c) := by
  apply staysWithin_ite movesToAscii_toUpper
  · decide
  · decide

theorem staysWithin_lowerChar (c : Char) : StaysWithin c (lowerChar c) := by
  apply staysWithin_ite movesToAscii_toLower
  · decide
  · decide

/-- No separators are left between words. -/
theorem not_separator_of_mem_joinWords {behindSeparator : Bool} {s : Text} :
    ∀ c ∈ joinWords behindSeparator s, isWordSeparator c = false := by
  induction s generalizing behindSeparator with
  | nil => exact nofun
  | cons d s ih =>
    rw [joinWords]
    split
    · exact ih
    · rename_i hd
      rw [Bool.not_eq_true] at hd
      rw [List.forall_mem_append]
      refine ⟨?_, ih⟩
      split
      · exact staysWithin_upperChar d hd
      · simpa using hd

theorem not_separator_of_mem_lowerFirst {s : Text} (h : ∀ c ∈ s, isWordSeparator c = false) :
    ∀ c ∈ lowerFirst s, isWordSeparator c = false := by
  cases s with
  | nil => exact nofun
  | cons d s =>
    rw [List.forall_mem_cons] at h
    rw [lowerFirst, lower_singleton, List.forall_mem_append]
    exact ⟨staysWithin_lowerChar d h.1, h.2⟩

theorem not_separator_of_mem_upperFirst {s : Text} (h : ∀ c ∈ s, isWordSeparator c = false) :
    ∀ c ∈ upperFirst s, isWordSeparator c = false := by
  cases s with
  | nil => exact nofun
  | cons d s =>
    rw [List.forall_mem_cons] at h
    rw [upperFirst, List.forall_mem_append]
    exact ⟨staysWithin_upperChar d h.1, h.2⟩

/-- The symbol is the name in Pascal case, or has `Svg` in front of it. -/
theorem symbolName_cases (name : Text) :
    (symbolName name = ['S', 'v', 'g'] ++ pascalCase name ∧
        ∀ c ∈ (pascalCase name).head?, isDigit c = true) ∨
      ∃ c s, symbolName name = c :: s ∧ pascalCase name = c :: s ∧ isDigit c = false := by
  rw [symbolName]
  cases pascalCase name with
  | nil => exact .inl ⟨rfl, nofun⟩
  | cons c s =>
    cases hc : isDigit c with
    | true => exact .inl ⟨by simp [hc], by simpa using hc⟩
    | false => exact .inr ⟨c, s, by simp [hc], rfl, hc⟩

theorem not_separator_of_mem_symbolName (name : Text) :
    ∀ c ∈ symbolName name, isWordSeparator c = false := by
  have hpascal : ∀ c ∈ pascalCase name, isWordSeparator c = false := by
    apply not_separator_of_mem_upperFirst
    apply not_separator_of_mem_lowerFirst
    exact not_separator_of_mem_joinWords
  obtain ⟨hsymbol, -⟩ | ⟨c, s, hsymbol, hname, -⟩ := symbolName_cases name
  · rw [hsymbol, List.forall_mem_append]
    exact ⟨forall_mem_of_all rfl, hpascal⟩
  · rwa [hsymbol, ← hname]

/-! ## The first character -/

theorem keepsKind_append {c : Char} {image : Text} (h : KeepsKind c image) (rest : Text) :
    KeepsKind c (image ++ rest) := by
  intro hc
  obtain ⟨d, others, rfl, hd⟩ := h hc
  exact ⟨d, others ++ rest, rfl, hd⟩

/-- What keeps the kind of one character may be done to the first of a text. -/
theorem keepsKind_first {c : Char} {s : Text} (h : KeepsKind c s) {f : Char → Text}
    {g : Text → Text} (hg : ∀ d rest, g (d :: rest) = f d ++ rest) (hf : ∀ d, KeepsKind d (f d)) :
    KeepsKind c (g s) := by
  intro hc
  obtain ⟨d, rest, rfl, hd, hkind⟩ := h hc
  obtain ⟨e, others, he, halpha, hkind'⟩ := hf d hd
  refine ⟨e, others ++ rest, ?_, halpha, hkind'.trans hkind⟩
  rw [hg, he]
  rfl

/-- What stands in front once words are joined comes from the first letter or number. -/
theorem keepsKind_joinWords {s : Text}
    (hs : ∀ d ∈ s, isAlphanumeric d = true ∨ isWordSeparator d = true) {c : Char}
    (h : s.find? isAlphanumeric = some c) (behindSeparator : Bool) :
    KeepsKind c (joinWords behindSeparator s) := by
  induction s generalizing behindSeparator with
  | nil => cases h
  | cons d s ih =>
    rw [List.forall_mem_cons] at hs
    rw [joinWords]
    split
    · rename_i hd
      rw [List.find?_cons_of_neg] at h
      · exact ih hs.2 h true
      · intro halpha
        rw [not_isWordSeparator_of_isAlphanumeric halpha] at hd
        cases hd
    · rename_i hd
      have halpha : isAlphanumeric d = true := hs.1.resolve_right hd
      rw [List.find?_cons_of_pos halpha] at h
      cases h
      apply keepsKind_append
      split
      · exact keepsKind_upperChar c
      · exact keepsKind_self c

/-- Separators alone give no word. -/
theorem joinWords_eq_nil {s : Text} (hs : ∀ d ∈ s, isWordSeparator d = true)
    (behindSeparator : Bool) : joinWords behindSeparator s = [] := by
  induction s generalizing behindSeparator with
  | nil => rfl
  | cons d s ih =>
    rw [List.forall_mem_cons] at hs
    rw [joinWords, if_pos hs.1, ih hs.2]

/-- The text begins with a letter. -/
def BeginsWithLetter (s : Text) : Prop := ∃ c rest, s = c :: rest ∧ isLetter c = true

section

variable {name : Text} (hname : ∀ c ∈ name, isWordChar c = true ∨ c = '-')

include hname

theorem trim_eq_self_of_name : trim name = name := by
  have hblank : ∀ c ∈ name, isBlank c = false := by
    intro c hc
    rcases hname c hc with hword | rfl
    · rw [isWordChar, Bool.or_eq_true, beq_iff_eq] at hword
      rcases hword with rfl | halpha
      · decide
      · have hsep := not_isWordSeparator_of_isAlphanumeric halpha
        rw [← Bool.not_eq_true, isWordSeparator_iff, not_or, Bool.not_eq_true] at hsep
        exact hsep.1
    · decide
  exact trim_eq_self (fun c hc => hblank c (List.mem_of_mem_head? hc))
    fun c hc => hblank c (List.mem_of_getLast? hc)

/-- A name consists of letters, numbers and separators. -/
theorem parts_of_name : ∀ c ∈ name, isAlphanumeric c = true ∨ isWordSeparator c = true := by
  intro c hc
  rcases hname c hc with hword | rfl
  · rw [isWordChar, Bool.or_eq_true, beq_iff_eq] at hword
    exact hword.symm.imp_right fun h => isWordSeparator_iff.2 (.inr (.inl h))
  · exact .inr (by decide)

/-- **What a symbol begins with.** A symbol begins with a letter unless the first letter or number
of the name is a number other than a digit. -/
theorem beginsWithLetter_symbolName_iff : BeginsWithLetter (symbolName name) ↔
    ∀ c, name.find? isAlphanumeric = some c → isOtherNumber c = false := by
  have hpascal : pascalCase name = upperFirst (lowerFirst (joinWords false name)) := by
    rw [pascalCase, camelCase, trim_eq_self_of_name hname]
  have hletter : isLetter 'S' = true := by decide +kernel
  cases hfirst : name.find? isAlphanumeric with
  | none =>
    -- There is nothing but separators, and the symbol is `Svg`.
    have hnil : pascalCase name = [] := by
      rw [hpascal, joinWords_eq_nil fun d hd =>
        (parts_of_name hname d hd).resolve_left (List.find?_eq_none.1 hfirst d hd)]
      rfl
    have hsymbol : symbolName name = ['S', 'v', 'g'] := by rw [symbolName, hnil]
    rw [hsymbol]
    exact ⟨fun _ => nofun, fun _ => ⟨'S', _, rfl, hletter⟩⟩
  | some c =>
    have hkind : KeepsKind c (pascalCase name) := by
      rw [hpascal]
      apply keepsKind_first _ (fun _ _ => rfl) keepsKind_upperChar
      apply keepsKind_first _ (fun d rest => by rw [lowerFirst, lower_singleton])
        keepsKind_lowerChar
      exact keepsKind_joinWords (parts_of_name hname) hfirst false
    obtain ⟨d, rest, hname', halpha, hother⟩ := hkind (List.find?_some hfirst)
    simp only [Option.some.injEq, forall_eq']
    rw [symbolName, hname', ← hother]
    cases hdigit : isDigit d with
    | true =>
      have hnone : isOtherNumber d = false := by
        rw [← Bool.not_eq_true]
        intro h
        rw [not_isDigit_of_isOtherNumber h] at hdigit
        cases hdigit
      simp only [hdigit, if_true]
      exact ⟨fun _ => hnone, fun _ => ⟨'S', _, rfl, hletter⟩⟩
    | false =>
      have hiff : isLetter d = true ↔ isOtherNumber d = false := by
        rw [isLetter, halpha, hdigit]
        simp
      simp only [hdigit]
      rw [← hiff]
      constructor
      · rintro ⟨e, others, he, hletter⟩
        cases he
        exact hletter
      · exact fun h => ⟨d, rest, rfl, h⟩

end

/-! ## Symbols of files -/

/-- What a name is before hyphens are taken off its ends. -/
theorem filter_trimHyphens (s : Text) :
    (trimHyphens s).filter isAlphanumeric = s.filter isAlphanumeric := by
  have hnil : ∀ w : Text, (∀ c ∈ w, (c == '-') = true) → w.filter isAlphanumeric = [] := by
    intro w hw
    rw [List.filter_eq_nil_iff]
    intro c hc
    rw [beq_iff_eq.1 (hw c hc)]
    decide
  obtain ⟨v, w, hs, hv, hw⟩ := exists_eq_append_dropAround (· == '-') s
  conv => rhs; rw [hs]
  rw [List.filter_append, List.filter_append, hnil v hv, hnil w hw, List.append_nil,
    List.nil_append]
  rfl

/-- The name of an asset is made of word characters and hyphens, and it has the letters and numbers
of the file's name, or stands in for a name without any. -/
theorem safeName_spec (stem : Text) :
    (∀ c ∈ safeName stem, isWordChar c = true ∨ c = '-') ∧
      ((safeName stem).filter isAlphanumeric = stem.filter isAlphanumeric ∨
        safeName stem = ['s', 'v', 'g'] ∧ stem.filter isAlphanumeric = []) := by
  have hfilter := filter_trimHyphens
    (collapseRuns (fun c => !(isWordChar c || c == '-')) '-' false stem)
  rw [filter_collapseRuns (by decide) (by
    intro c hc
    rw [Bool.not_eq_true', Bool.or_eq_false_iff, isWordChar, Bool.or_eq_false_iff] at hc
    exact hc.1.2)] at hfilter
  rw [safeName]
  split
  · rename_i hempty
    rw [List.isEmpty_iff.1 hempty] at hfilter
    exact ⟨forall_mem_of_all (by decide +kernel), .inr ⟨rfl, hfilter.symm⟩⟩
  · refine ⟨?_, .inl hfilter⟩
    intro c hc
    have hmem := dropAround_isInfix.subset hc
    by_contra hno
    rw [not_or, Bool.not_eq_true] at hno
    exact hno.2 (eq_mark_of_mem_collapseRuns hmem (by simp [hno.1, hno.2]))

/-- A letter or number is a letter, a digit or another number. -/
theorem isOtherNumber_eq_false_iff {c : Char} (h : isAlphanumeric c = true) :
    isOtherNumber c = false ↔ isLetter c = true ∨ isDigit c = true := by
  rw [isLetter, h]
  cases hother : isOtherNumber c with
  | true => simp [not_isDigit_of_isOtherNumber hother]
  | false => cases isDigit c <;> simp

/-- What may stand as an identifier: a letter, and behind it no white space, no hyphen, no full stop
and no underscore. -/
structure IsIdentifier (s : Text) : Prop where
  begins : BeginsWithLetter s
  chars : ∀ c ∈ s, isBlank c = false ∧ c ≠ '-' ∧ c ≠ '.' ∧ c ≠ '_'

/-- **Which symbols are identifiers.** No symbol is empty or has a separator in it, and it is an
identifier exactly if the first letter or number in the name of the file is a letter or a digit. -/
theorem symbolName_safeName (stem : Text) :
    (symbolName (safeName stem) ≠ [] ∧
        ∀ c ∈ symbolName (safeName stem), isBlank c = false ∧ c ≠ '-' ∧ c ≠ '.' ∧ c ≠ '_') ∧
      (IsIdentifier (symbolName (safeName stem)) ↔
        ∀ c, stem.find? isAlphanumeric = some c → isLetter c = true ∨ isDigit c = true) := by
  obtain ⟨hname, hfilter⟩ := safeName_spec stem
  have hchars : ∀ c ∈ symbolName (safeName stem),
      isBlank c = false ∧ c ≠ '-' ∧ c ≠ '.' ∧ c ≠ '_' := by
    intro c hc
    have hsep := not_separator_of_mem_symbolName _ c hc
    rw [← Bool.not_eq_true, isWordSeparator_iff, not_or, not_or, not_or, Bool.not_eq_true] at hsep
    exact ⟨hsep.1, hsep.2.2.1, hsep.2.2.2, hsep.2.1⟩
  have hne : symbolName (safeName stem) ≠ [] := by
    obtain ⟨hsymbol, -⟩ | ⟨c, s, hsymbol, -⟩ := symbolName_cases (safeName stem)
    · rw [hsymbol]
      exact List.cons_ne_nil _ _
    · rw [hsymbol]
      exact List.cons_ne_nil c s
  have hkind : (∀ c, (safeName stem).find? isAlphanumeric = some c → isOtherNumber c = false) ↔
      ∀ c, stem.find? isAlphanumeric = some c → isLetter c = true ∨ isDigit c = true := by
    rw [← List.head?_filter, ← List.head?_filter]
    rcases hfilter with hfilter | ⟨hsvg, hnil⟩
    · rw [hfilter, List.head?_filter]
      exact forall_congr' fun c => imp_congr_right fun hc =>
        isOtherNumber_eq_false_iff (List.find?_some hc)
    · rw [hsvg, hnil]
      have hs : (['s', 'v', 'g'].filter isAlphanumeric).head? = some 's' := rfl
      rw [hs]
      simp only [Option.some.injEq, forall_eq', List.head?_nil, reduceCtorEq, false_implies,
        implies_true, iff_true]
      decide
  refine ⟨⟨hne, hchars⟩, ?_⟩
  rw [← hkind, ← beginsWithLetter_symbolName_iff hname]
  exact ⟨IsIdentifier.begins, fun h => ⟨h, hchars⟩⟩

/-- A fraction in front of a name is not moved behind a letter. -/
theorem fraction_begins_symbol :
    symbolName (safeName ['½']) = ['½'] ∧ ¬ IsIdentifier (symbolName (safeName ['½'])) := by
  have hsymbol : symbolName (safeName ['½']) = ['½'] := by decide +kernel
  refine ⟨hsymbol, ?_⟩
  rintro ⟨⟨c, rest, hfirst, hletter⟩, -⟩
  rw [hsymbol] at hfirst
  cases hfirst
  exact absurd hletter (by decide +kernel)

end SvgAssets.Naming
