/-
# SvgAssets.Proofs.TypeScript.LiteralTokens -- the tokens of literals are read back

Texts are read back because undoing the escapes gives them back (`readQuoted_escape`), and numbers
because their text is a numeral for them (`exists_spelling_text`); infinities and what is no number
have none. A name without quotes need not be an identifier: a line end behind it does not count, and
the word characters have numbers among them that no identifier may hold. It is read back exactly
where it is one (`readName_memberName`, `isIdentifier_of_readName`).
-/
import SvgAssets.Proofs.Number.DecimalText
import SvgAssets.Proofs.TypeScript.LiteralGrammar

namespace SvgAssets.TypeScript

/-! ## Tokens -/

@[simp] theorem skipSpace_space (s : Text) : skipSpace (' ' :: s) = skipSpace s := rfl

theorem skipSpace_of_not_isSpace {c : Char} (hc : isSpace c = false) (s : Text) :
    skipSpace (c :: s) = c :: s := by
  rw [skipSpace, List.dropWhile_cons, hc]
  rfl

@[simp] theorem token?_space (c : Char) (s : Text) : token? c (' ' :: s) = token? c s := rfl

theorem token?_self {c : Char} (hc : isSpace c = false) (s : Text) :
    token? c (c :: s) = some s := by
  rw [token?, skipSpace_of_not_isSpace hc, Text.after?, if_pos rfl]
  rfl

theorem token?_of_ne {c d : Char} (hd : isSpace d = false) (hne : d ≠ c) (s : Text) :
    token? c (d :: s) = none := by
  rw [token?, skipSpace_of_not_isSpace hd, Text.after?, if_neg hne.symm]

/-- A run of characters, and what follows it. -/
theorem span_append {p : Char → Bool} {s rest : Text} (hs : ∀ c ∈ s, p c = true)
    (hrest : ∀ c ∈ rest.head?, p c = false) :
    (s ++ rest).takeWhile p = s ∧ (s ++ rest).dropWhile p = rest := by
  cases rest with
  | nil => simpa using hs
  | cons c rest =>
    have hc := hrest c rfl
    rw [List.takeWhile_append_of_pos hs, List.dropWhile_append_of_pos hs]
    simp [hc]

/-! ## Texts -/

theorem readQuoted_escapeChar (c : Char) (s : Text) :
    readQuoted '\'' (escapeChar c ++ s) =
      (readQuoted '\'' s).map fun (t, rest) => (c :: t, rest) := by
  unfold escapeChar
  by_cases hbackslash : c = '\\'
  · subst c
    simp [readQuoted, escapeValue?]
  by_cases hquote : c = '\''
  · subst c
    simp [readQuoted, escapeValue?]
  by_cases hfeed : c = '\n'
  · subst c
    simp [readQuoted, escapeValue?]
  by_cases hreturn : c = '\r'
  · subst c
    simp [readQuoted, escapeValue?]
  rw [if_neg hbackslash, if_neg hquote, if_neg hfeed, if_neg hreturn, List.singleton_append]
  conv_lhs => unfold readQuoted
  simp [hbackslash, hquote, hfeed, hreturn]

/-- **Undoing the escapes gives a text back.** -/
theorem readQuoted_escape (s rest : Text) :
    readQuoted '\'' (escape s ++ '\'' :: rest) = some (s, rest) := by
  induction s with
  | nil =>
    unfold readQuoted
    simp [escape]
  | cons c s ih =>
    rw [escape, List.flatMap_cons, ← escape, List.append_assoc, readQuoted_escapeChar, ih]
    rfl

theorem quote_append (t rest : Text) :
    quote t ++ rest = '\'' :: (escape t ++ '\'' :: rest) := by
  simp [quote]

/-! ## Numbers -/

/-- The numbers that have a numeral. -/
def HasNumeral : Number → Prop
  | .int _ => True
  | .float (.finite _ _ _ _) => True
  | .float _ => False

/-- What holds of the ten digits holds of every digit. -/
theorem forall_isDigit {p : Char → Prop} (h : ∀ n < 10, p (Char.ofNat (48 + n))) {c : Char}
    (hc : c.isDigit = true) : p c := by
  obtain ⟨hlow, hhigh⟩ := Text.isDigit_bounds hc
  have hdigit := h (c.toNat - 48) (by omega)
  rwa [Nat.add_sub_cancel' hlow, Char.ofNat_toNat] at hdigit

theorem isMark_of_isDigit {c : Char} (hc : c.isDigit = true) : isMark c = false :=
  forall_isDigit (p := fun c => isMark c = false) (by decide) hc

theorem isNumeralChar_of_isDigit {c : Char} (hc : c.isDigit = true) : isNumeralChar c = true := by
  rw [isNumeralChar, hc]
  rfl

section

open Text

variable {s : Spelling} (hs : s.WellFormed) (negative : Bool) (width : Nat)

include hs

/-- The first digit in front of the point is zero only where it stands alone. -/
theorem no_leading_zero :
    ¬ ((s.numeral negative).whole.head? = some 0 ∧ (s.numeral negative).whole ≠ [0]) := by
  obtain ⟨c, t, hwhole, hfirst⟩ := hs.first
  have hdigit := isDigit_bounds (hs.whole c (by rw [hwhole]; exact List.mem_cons_self))
  show ¬ ((digitValues s.whole).head? = some 0 ∧ digitValues s.whole ≠ [0])
  rw [hwhole]
  rintro ⟨hzero, hne⟩
  have hvalue : c.toNat - '0'.toNat = 0 := Option.some.inj hzero
  have hzeroNat : '0'.toNat = 48 := rfl
  have hc : c = '0' := Char.toNat_inj.1 (by omega)
  rw [hfirst hc, hc] at hne
  exact hne rfl

theorem isNumeralChar_text :
    ∀ c ∈ signText negative ++ s.text width, isNumeralChar c = true := by
  have hsign : ∀ c ∈ signText negative, isNumeralChar c = true := by
    cases negative with
    | false => simp [signText]
    | true => simp [signText, isNumeralChar]
  have hfraction : ∀ c ∈ s.fractionText, isNumeralChar c = true := by
    unfold Spelling.fractionText
    split
    · simp
    · intro c hc
      rcases List.mem_cons.1 hc with rfl | hc
      · decide
      · exact isNumeralChar_of_isDigit (hs.fraction c hc)
  have htail : ∀ c ∈ s.tailText width, isNumeralChar c = true := by
    unfold Spelling.tailText
    cases s.exponent with
    | none => simp
    | some x =>
      intro c hc
      rcases List.mem_cons.1 hc with rfl | hc
      · decide
      rcases List.mem_cons.1 hc with rfl | hc
      · split <;> decide
      · exact isNumeralChar_of_isDigit (isDigit_paddedDigits width _ c hc)
  intro c hc
  simp only [Spelling.text, List.mem_append] at hc
  rcases hc with hc | (hc | hc) | hc
  · exact hsign c hc
  · exact isNumeralChar_of_isDigit (hs.whole c hc)
  · exact hfraction c hc
  · exact htail c hc

theorem any_isMark_text : (signText negative ++ s.text width).any isMark =
    decide (s.fraction ≠ [] ∨ s.exponent ≠ none) := by
  have hsign : (signText negative).any isMark = false := by
    cases negative <;> rfl
  have hwhole : s.whole.any isMark = false :=
    List.any_eq_false.2 fun c hc => by simp [isMark_of_isDigit (hs.whole c hc)]
  have hfraction : s.fractionText.any isMark = decide (s.fraction ≠ []) := by
    unfold Spelling.fractionText
    split
    · simp_all
    · simp_all [isMark]
  have htail : (s.tailText width).any isMark = decide (s.exponent ≠ none) := by
    unfold Spelling.tailText
    cases s.exponent with
    | none => rfl
    | some x => simp [exponentText, isMark]
  rw [Spelling.text, List.any_append, List.any_append, List.any_append, hsign, hwhole, hfraction,
    htail, Bool.false_or, Bool.false_or, Bool.decide_or]

theorem numberOf?_spelling : numberOf? (signText negative ++ s.text width) =
    if s.fraction ≠ [] ∨ s.exponent ≠ none then some (.float (s.numeral negative).toBinary64)
    else
      let magnitude : Int := decimalValue (digitValues s.whole)
      some (.int (if negative then -magnitude else magnitude)) := by
  unfold numberOf?
  rw [s.readNumeral_text negative hs width, any_isMark_text hs negative width]
  dsimp only
  rw [if_neg (no_leading_zero hs negative)]
  simp only [decide_eq_true_eq]
  rfl

/-- The first character of a numeral. -/
theorem exists_text_eq_cons :
    ∃ c t, signText negative ++ s.text width = c :: t ∧ (c = '-' ∨ c.isDigit = true) := by
  obtain ⟨c, t, hwhole, -⟩ := hs.first
  cases negative with
  | true => exact ⟨'-', s.text width, rfl, .inl rfl⟩
  | false =>
    refine ⟨c, t ++ s.fractionText ++ s.tailText width, ?_, .inr ?_⟩
    · rw [Spelling.text, hwhole]
      rfl
    · exact hs.whole c (by rw [hwhole]; exact List.mem_cons_self)

end

/-- **Numbers are read back.** The text of a number that has a numeral is a spelling, and is read as
that number. -/
theorem exists_spelling_text {n : Number} (hn : HasNumeral n) :
    ∃ (negative : Bool) (s : Spelling) (width : Nat), s.WellFormed ∧
      n.text = Text.signText negative ++ s.text width ∧ numberOf? n.text = some n := by
  cases n with
  | int n =>
    have hs := Number.wellFormed_integerSpelling n.natAbs
    refine ⟨decide (n < 0), _, 0, hs, Number.intText_eq n 0, ?_⟩
    rw [Number.text, Number.intText_eq n 0, numberOf?_spelling hs,
      if_neg (by simp [Number.integerSpelling])]
    simp only [Number.integerSpelling, Text.decimalValue_digitValues_toDigits, decide_eq_true_eq]
    congr 2
    split <;> omega
  | float x =>
    cases x with
    | nan => exact hn.elim
    | infinity negative => exact hn.elim
    | finite negative m e h =>
      obtain ⟨s, hs, hmarked, htext, hread⟩ := Binary64.exists_spelling_decimalText negative h
      refine ⟨negative, s, _, hs, htext, ?_⟩
      rw [Number.text, htext, numberOf?_spelling hs, if_pos hmarked, hread]

/-! ## What may follow a token -/

/-- What may follow a token: neither a word nor a number goes on with it. -/
def EndsToken (rest : Text) : Prop :=
  ∀ c ∈ rest.head?, isIdentifierPart c = false ∧ isNumeralChar c = false

theorem endsToken_nil : EndsToken [] := by simp [EndsToken]

theorem endsToken_cons {c : Char} (h : isIdentifierPart c = false ∧ isNumeralChar c = false)
    (s : Text) : EndsToken (c :: s) := by
  intro d hd
  cases hd
  exact h

/-- Commas and brackets end what stands in front of them. -/
theorem endsToken_comma (s : Text) : EndsToken (',' :: s) := endsToken_cons (by decide) s

theorem endsToken_bracket (s : Text) : EndsToken (']' :: s) := endsToken_cons (by decide) s

theorem endsToken_brace (s : Text) : EndsToken ('\x7d' :: s) := endsToken_cons (by decide) s

theorem endsToken_colon (s : Text) : EndsToken (':' :: s) := endsToken_cons (by decide) s

/-! ## Words and names -/

/-- A word is read up to where it ends. -/
theorem readWord?_append {name : Text} (h : isIdentifier name = true) {rest : Text}
    (hrest : EndsToken rest) : readWord? (name ++ rest) = some (name, rest) := by
  cases name with
  | nil => exact absurd h Bool.false_ne_true
  | cons c s =>
    rw [isIdentifier, Bool.and_eq_true, List.all_eq_true] at h
    obtain ⟨htake, hdrop⟩ := span_append h.2 fun c hc => (hrest c hc).1
    rw [List.cons_append, readWord?, if_pos h.1, htake, hdrop]

theorem isQuote_of_isNameStart {c : Char} (h : isNameStart c = true) : isQuote c = false := by
  by_contra hquote
  rw [Bool.not_eq_false, isQuote, Bool.or_eq_true, beq_iff_eq, beq_iff_eq] at hquote
  rcases hquote with rfl | rfl <;> exact absurd h (by decide)

theorem isNameStart_bounds {c : Char} (h : isNameStart c = true) :
    c.toNat = 36 ∨ 65 ≤ c.toNat ∧ c.toNat ≤ 122 := by
  have hclasses : (decide ('A'.val ≤ c.val ∧ c.val ≤ 'Z'.val) ||
      decide ('a'.val ≤ c.val) && decide (c.val ≤ 'z'.val) || c == '_' || c == '$') = true := h
  simp only [Bool.or_eq_true, Bool.and_eq_true, decide_eq_true_eq, beq_iff_eq,
    UInt32.le_iff_toNat_le] at hclasses
  rcases hclasses with ((⟨hlow, hhigh⟩ | ⟨hlow, hhigh⟩) | rfl) | rfl
  · exact .inr ⟨hlow, Nat.le_trans hhigh (by decide)⟩
  · exact .inr ⟨Nat.le_trans (by decide) hlow, hhigh⟩
  · decide
  · decide

theorem isSpace_of_isNameStart {c : Char} (h : isNameStart c = true) : isSpace c = false := by
  have hbounds := isNameStart_bounds h
  simp only [isSpace, Text.inRanges, spaceRanges, List.any_cons, List.any_nil, Bool.or_false,
    Bool.or_eq_false_iff, Bool.and_eq_false_iff, decide_eq_false_iff_not]
  omega

/-- A name that stands without quotes begins as an identifier does. -/
theorem exists_eq_cons_of_isBareName {name : Text} (h : isBareName name = true) :
    ∃ c s, name = c :: s ∧ isNameStart c = true := by
  cases name with
  | nil => exact absurd h Bool.false_ne_true
  | cons c s =>
    rw [isBareName, Bool.and_eq_true] at h
    exact ⟨c, s, rfl, h.1⟩

/-- A name begins with a character that is neither white space nor a closing brace. -/
theorem exists_memberName_eq_cons (name : Text) :
    ∃ c t, memberName name = c :: t ∧ isSpace c = false ∧ c ≠ '\x7d' := by
  unfold memberName
  split
  · rename_i hbare
    obtain ⟨c, s, rfl, hc⟩ := exists_eq_cons_of_isBareName hbare
    refine ⟨c, s, rfl, isSpace_of_isNameStart hc, ?_⟩
    rintro rfl
    exact absurd hc (by decide)
  · exact ⟨'\'', _, rfl, by decide⟩

theorem readName_quote (name rest : Text) : readName (quote name ++ rest) = some (name, rest) := by
  rw [quote_append]
  exact readQuoted_escape name rest

/-- A word at the place of a name. -/
theorem readName_word {c : Char} (hc : isNameStart c = true) (s : Text) :
    readName (c :: s) = readWord? (c :: s) := by
  rw [readName, skipSpace_of_not_isSpace (isSpace_of_isNameStart hc)]
  dsimp only
  rw [isQuote_of_isNameStart hc, if_neg Bool.false_ne_true]

/-- Names are read back if those without quotes are identifiers. -/
theorem readName_memberName {name : Text} (h : isBareName name = true → isIdentifier name = true)
    {rest : Text} (hrest : EndsToken rest) :
    readName (memberName name ++ rest) = some (name, rest) := by
  unfold memberName
  split
  · rename_i hbare
    have hword := readWord?_append (h hbare) hrest
    obtain ⟨c, s, rfl, hc⟩ := exists_eq_cons_of_isBareName hbare
    rw [List.cons_append] at hword ⊢
    rw [readName_word hc, hword]
  · exact readName_quote name rest

/-- A name without quotes that is read back is an identifier. -/
theorem isIdentifier_of_readName {name rest t : Text}
    (hread : readName (memberName name ++ rest) = some (name, t)) (hbare : isBareName name = true) :
    isIdentifier name = true := by
  obtain ⟨c, s, rfl, hc⟩ := exists_eq_cons_of_isBareName hbare
  rw [memberName, if_pos hbare, List.cons_append, readName_word hc, readWord?, if_pos hc] at hread
  have htake : (s ++ rest).takeWhile isIdentifierPart = s := by
    injection hread with hread
    injection hread with hname
    injection hname
  rw [isIdentifier, hc, Bool.true_and, ← htake]
  exact List.all_takeWhile

end SvgAssets.TypeScript
