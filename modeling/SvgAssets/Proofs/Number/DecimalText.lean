/-
# SvgAssets.Proofs.Number.DecimalText -- the text of a number is a numeral for it

However the text of a number is laid out, it is a `Spelling`: digits in front of a point, digits
behind it, an exponent, the last two only where they are needed. A spelling is read as the numeral
with those digits (`Spelling.readNumeral_text`), and every layout of digits is a spelling that is
worth what the digits are worth (`Digits.WellFormed.exists_spelling`). The text of every finite
number is therefore read as that number (`exists_spelling_decimalText`).
-/
import SvgAssets.Number
import SvgAssets.Proofs.Number.ShortestDigits

namespace SvgAssets

namespace Text

/-! ## Reading digits in ASCII -/

theorem digitValue?_of_isDigit {c : Char} (h : c.isDigit = true) :
    digitValue? c = some (c.toNat - '0'.toNat) := by
  obtain ⟨hlow, hhigh⟩ := isDigit_bounds h
  have hfind : decimalZeros.find? (fun first => first ≤ c.toNat && c.toNat ≤ first + 9) =
      some 0x30 := by
    refine List.find?_cons_of_pos ?_
    rw [Bool.and_eq_true, decide_eq_true_eq, decide_eq_true_eq]
    exact ⟨hlow, hhigh⟩
  rw [digitValue?, hfind]
  rfl

/-- Digits are read up to the first character that is no digit. -/
theorem readDigits_append {ds rest : Text} (h : ∀ c ∈ ds, c.isDigit = true)
    (hrest : ∀ c ∈ rest.head?, digitValue? c = none) :
    readDigits (ds ++ rest) = (digitValues ds, rest) := by
  induction ds with
  | nil =>
    cases rest with
    | nil => rfl
    | cons c rest =>
      rw [List.nil_append, readDigits, hrest c rfl]
      rfl
  | cons d ds ih =>
    rw [List.forall_mem_cons] at h
    rw [List.cons_append, readDigits, digitValue?_of_isDigit h.1, ih h.2]
    rfl

/-- The sign in front of a numeral. -/
def signText (negative : Bool) : Text := if negative then ['-'] else []

theorem readSign_signText (negative : Bool) {c : Char} (hc : c.isDigit = true) (s : Text) :
    readSign (signText negative ++ c :: s) = (negative, c :: s) := by
  cases negative with
  | true => rfl
  | false =>
    rw [signText, if_neg Bool.false_ne_true, List.nil_append]
    unfold readSign
    split
    · rename_i heq
      cases heq
      exact absurd hc (by decide)
    · rename_i heq
      cases heq
      exact absurd hc (by decide)
    · rfl

/-! ## Exponents -/

theorem isDigit_append {s t : Text} (hs : ∀ c ∈ s, c.isDigit = true)
    (ht : ∀ c ∈ t, c.isDigit = true) : ∀ c ∈ s ++ t, c.isDigit = true := fun c hc =>
  (List.mem_append.1 hc).elim (hs c) (ht c)

theorem isDigit_zeros (n : Nat) : ∀ c ∈ List.replicate n '0', c.isDigit = true := by
  intro c hc
  rw [List.eq_of_mem_replicate hc]
  rfl

/-- The digits of a number, with zeros in front of them up to `width`. -/
def paddedDigits (width n : Nat) : Text :=
  List.replicate (width - (Nat.toDigits 10 n).length) '0' ++ Nat.toDigits 10 n

theorem isDigit_paddedDigits (width n : Nat) : ∀ c ∈ paddedDigits width n, c.isDigit = true :=
  isDigit_append (isDigit_zeros _) (isDigit_toDigits n)

theorem decimalValue_paddedDigits (width n : Nat) :
    decimalValue (digitValues (paddedDigits width n)) = n := by
  rw [paddedDigits, digitValues_append, digitValues_replicate_zero,
    decimalValue_replicate_zero_append, decimalValue_digitValues_toDigits]

theorem digitValues_paddedDigits_ne_nil (width n : Nat) :
    digitValues (paddedDigits width n) ≠ [] := by
  simp [digitValues, paddedDigits, Nat.toDigits_ne_nil]

/-- An exponent as it is written, with a sign and at least `width` digits. -/
def exponentText (width : Nat) (exponent : Int) : Text :=
  'e' :: (if exponent < 0 then '-' else '+') :: paddedDigits width exponent.natAbs

theorem readExponent_exponentText (width : Nat) (exponent : Int) :
    readExponent (exponentText width exponent) = (exponent, []) := by
  have hread : readDigits (paddedDigits width exponent.natAbs ++ []) = _ :=
    readDigits_append (isDigit_paddedDigits width exponent.natAbs) (by simp)
  have hvalue := decimalValue_paddedDigits width exponent.natAbs
  obtain ⟨d, ds, hcons⟩ :=
    List.exists_cons_of_ne_nil (digitValues_paddedDigits_ne_nil width exponent.natAbs)
  rw [List.append_nil, hcons] at hread
  rw [hcons] at hvalue
  unfold exponentText
  by_cases hneg : exponent < 0
  · rw [if_pos hneg]
    simp only [readExponent, readSign, hread]
    rw [hvalue]
    exact Prod.ext (show -(exponent.natAbs : Int) = exponent by omega) rfl
  · rw [if_neg hneg]
    simp only [readExponent, readSign, hread]
    rw [hvalue]
    exact Prod.ext (show (exponent.natAbs : Int) = exponent by omega) rfl

end Text

/-! ## Spellings -/

/-- How a decimal is spelled: digits in front of the point, digits behind it, and an exponent.
Where there are no digits behind it there is no point. -/
structure Spelling where
  whole : Text
  fraction : Text
  exponent : Option Int

namespace Spelling

open Text

/-- A point, and the digits behind it. -/
def fractionText (s : Spelling) : Text := if s.fraction = [] then [] else '.' :: s.fraction

/-- The exponent, where there is one. -/
def tailText (width : Nat) (s : Spelling) : Text :=
  match s.exponent with
  | none => []
  | some x => exponentText width x

/-- A spelling as text. An exponent has at least `width` digits. -/
def text (width : Nat) (s : Spelling) : Text := s.whole ++ s.fractionText ++ s.tailText width

/-- The numeral that is spelled. -/
def numeral (negative : Bool) (s : Spelling) : Numeral :=
  ⟨negative, digitValues s.whole, digitValues s.fraction, s.exponent.getD 0⟩

/-- The parts of a spelling are digits. In front of the point there is at least one, and a zero at
the first place stands alone. -/
structure WellFormed (s : Spelling) : Prop where
  whole : ∀ c ∈ s.whole, c.isDigit = true
  fraction : ∀ c ∈ s.fraction, c.isDigit = true
  first : ∃ c t, s.whole = c :: t ∧ (c = '0' → t = [])

theorem readExponent_tailText (width : Nat) (s : Spelling) :
    readExponent (s.tailText width) = (s.exponent.getD 0, []) := by
  unfold tailText
  cases s.exponent with
  | none => rfl
  | some x => exact readExponent_exponentText width x

theorem head?_tailText (width : Nat) (s : Spelling) : ∀ c ∈ (s.tailText width).head?, c = 'e' := by
  unfold tailText
  cases s.exponent with
  | none => simp
  | some x => simp [exponentText]

/-- Digits in front of an exponent are read up to it. -/
theorem readDigits_tailText {ds : Text} (h : ∀ c ∈ ds, c.isDigit = true) (width : Nat)
    (s : Spelling) :
    readDigits (ds ++ s.tailText width) = (digitValues ds, s.tailText width) := by
  refine readDigits_append h fun c hc => ?_
  rw [head?_tailText width s c hc]
  decide

theorem readMantissa_text (negative : Bool) {s : Spelling} (hs : s.WellFormed) (width : Nat) :
    readMantissa (signText negative ++ s.text width) =
      some (⟨negative, digitValues s.whole, digitValues s.fraction, 0⟩, s.tailText width) := by
  obtain ⟨c, t, hwhole, -⟩ := hs.first
  have hdigit := hs.whole
  have hsign : readSign (signText negative ++ s.text width) = (negative, s.text width) := by
    rw [hwhole] at hdigit
    rw [text, hwhole]
    exact readSign_signText negative (hdigit c List.mem_cons_self) _
  have hvalues : digitValues s.whole ≠ [] := by simp [hwhole, digitValues]
  obtain ⟨d, ds, hcons⟩ := List.exists_cons_of_ne_nil hvalues
  unfold readMantissa
  rw [hsign]
  dsimp only
  by_cases hfraction : s.fraction = []
  · rw [text, fractionText, if_pos hfraction, List.append_nil,
      readDigits_tailText hdigit width s, hcons, hfraction]
    have htail := head?_tailText width s
    cases hbehind : s.tailText width with
    | nil => rfl
    | cons c rest =>
      rw [hbehind] at htail
      rw [htail c rfl]
      rfl
  · rw [text, fractionText, if_neg hfraction, List.append_assoc, List.cons_append,
      readDigits_append hdigit (by simp; decide), hcons]
    simp only [readDigits_tailText hs.fraction width s]

/-- **Reading a spelling.** A spelling behind a sign is read to its end, as the numeral that is
spelled. -/
theorem readNumeral_text (negative : Bool) {s : Spelling} (hs : s.WellFormed) (width : Nat) :
    readNumeral (signText negative ++ s.text width) = some (s.numeral negative, []) := by
  rw [readNumeral, readMantissa_text negative hs width, Option.map_some]
  dsimp only
  rw [readExponent_tailText width s]
  rfl

theorem isDecimal_numeral (negative : Bool) {s : Spelling} (hs : s.WellFormed) :
    (s.numeral negative).IsDecimal := by
  intro d hd
  rcases List.mem_append.1 hd with hd | hd
  · exact digitValues_lt hs.whole d hd
  · exact digitValues_lt hs.fraction d hd

/-- The rational that a spelling stands for. -/
theorem magnitude_numeral (negative : Bool) (s : Spelling) :
    (s.numeral negative).magnitude =
      (decimalValue (digitValues (s.whole ++ s.fraction)) : ℚ) *
        10 ^ (s.exponent.getD 0 - s.fraction.length) := by
  rw [digitValues_append, Numeral.magnitude, Numeral.scale, numeral, length_digitValues]

end Spelling

namespace Binary64

open Text

/-- A spelling is one of a decimal: it is laid out as the decimal is, has a point or an exponent,
and is worth what the decimal is worth. -/
structure Spells (style : DecimalStyle) (d : Digits) (s : Spelling) : Prop where
  wellFormed : s.WellFormed
  text : s.text style.exponentWidth = d.text style
  marked : s.fraction ≠ [] ∨ s.exponent ≠ none
  magnitude : ∀ negative, (s.numeral negative).magnitude = d.value

variable {style : DecimalStyle} {d : Digits}

/-- A decimal below one has its digits behind the point, with zeros in front of them. -/
theorem spells_below_one (hd : d.WellFormed)
    (hstyle : style.positionalAbove < d.point ∧ d.point ≤ style.positionalUpTo)
    (hpoint : d.point ≤ 0) :
    Spells style d ⟨['0'], List.replicate (-d.point).toNat '0' ++ d.digits, none⟩ := by
  obtain ⟨c, t, hcons, -⟩ := hd.first
  refine ⟨⟨?_, isDigit_append (isDigit_zeros _) hd.isDigit, '0', [], rfl, fun _ => rfl⟩, ?_, ?_, ?_⟩
  · simp
  · simp [Digits.text, if_pos hstyle, hpoint, Spelling.text, Spelling.fractionText,
      Spelling.tailText, hcons]
  · simp [hcons]
  · intro negative
    have hzeros : digitValues ['0'] = List.replicate 1 0 := rfl
    rw [Spelling.magnitude_numeral, Digits.value, digitValues_append, digitValues_append, hzeros,
      digitValues_replicate_zero, decimalValue_replicate_zero_append,
      decimalValue_replicate_zero_append, List.length_append, List.length_replicate,
      Option.getD_none]
    congr 2
    push_cast
    omega

/-- An integer has zeros behind its digits, up to the point and once behind it. -/
theorem spells_integer (hd : d.WellFormed)
    (hstyle : style.positionalAbove < d.point ∧ d.point ≤ style.positionalUpTo)
    (hpoint : 0 < d.point) (hcount : d.digits.length ≤ d.point.toNat) :
    Spells style d
      ⟨d.digits ++ List.replicate (d.point.toNat - d.digits.length) '0', ['0'], none⟩ := by
  obtain ⟨c, t, hcons, hc⟩ := hd.first
  refine ⟨⟨isDigit_append hd.isDigit (isDigit_zeros _), ?_, c,
    t ++ List.replicate (d.point.toNat - d.digits.length) '0', ?_, fun h => absurd h hc⟩,
    ?_, ?_, ?_⟩
  · simp
  · rw [hcons, List.cons_append]
  · simp [Digits.text, if_pos hstyle, not_le.2 hpoint, hcount, Spelling.text,
      Spelling.fractionText, Spelling.tailText]
  · simp
  · intro negative
    have hzeros : digitValues ['0'] = List.replicate 1 0 := rfl
    rw [Spelling.magnitude_numeral, Digits.value, digitValues_append, digitValues_append, hzeros,
      digitValues_replicate_zero, decimalValue_append, decimalValue_append,
      decimalValue_replicate_zero, decimalValue_replicate_zero, List.length_replicate,
      List.length_replicate, Option.getD_none, Nat.add_zero, Nat.add_zero]
    have htenth : (10 : ℚ) * 10 ^ (0 - ((['0'] : Text).length : Int)) = 1 := by norm_num
    push_cast
    rw [mul_assoc, mul_assoc, htenth, mul_one, ← zpow_natCast]
    congr 2
    omega

/-- Any other decimal that is written positionally has the point between its digits. -/
theorem spells_point (hd : d.WellFormed)
    (hstyle : style.positionalAbove < d.point ∧ d.point ≤ style.positionalUpTo)
    (hpoint : 0 < d.point) (hcount : d.point.toNat < d.digits.length) :
    Spells style d ⟨d.digits.take d.point.toNat, d.digits.drop d.point.toNat, none⟩ := by
  obtain ⟨c, t, hcons, hc⟩ := hd.first
  have hne : d.digits.drop d.point.toNat ≠ [] := by
    rw [Ne, List.drop_eq_nil_iff]
    omega
  obtain ⟨p, hp⟩ : ∃ p, d.point.toNat = p + 1 := ⟨d.point.toNat - 1, by omega⟩
  refine ⟨⟨fun c hc => hd.isDigit c (List.mem_of_mem_take hc),
    fun c hc => hd.isDigit c (List.mem_of_mem_drop hc), c, t.take p, ?_, fun h => absurd h hc⟩,
    ?_, .inl hne, ?_⟩
  · rw [hcons, hp, List.take_succ_cons]
  · rw [Digits.text, if_pos hstyle, if_neg (not_le.2 hpoint), if_neg (not_le.2 hcount),
      Spelling.text, Spelling.fractionText, if_neg hne, Spelling.tailText, List.append_nil]
  · intro negative
    rw [Spelling.magnitude_numeral, Digits.value, List.take_append_drop, Option.getD_none,
      List.length_drop]
    congr 2
    omega

/-- A decimal with an exponent has one digit in front of the point. -/
theorem spells_exponent (hd : d.WellFormed)
    (hstyle : ¬ (style.positionalAbove < d.point ∧ d.point ≤ style.positionalUpTo)) :
    Spells style d ⟨d.digits.take 1, d.digits.drop 1, some (d.point - 1)⟩ := by
  obtain ⟨c, t, hcons, hc⟩ := hd.first
  refine ⟨⟨fun c hc => hd.isDigit c (List.mem_of_mem_take hc),
    fun c hc => hd.isDigit c (List.mem_of_mem_drop hc), c, [], ?_, fun h => absurd h hc⟩,
    ?_, .inr (Option.some_ne_none _), ?_⟩
  · rw [hcons, List.take_succ_cons, List.take_zero]
  · rw [Digits.text, if_neg hstyle]
    simp [Spelling.text, Spelling.fractionText, Spelling.tailText, exponentText,
      paddedDigits]
  · intro negative
    rw [Spelling.magnitude_numeral, Digits.value, List.take_append_drop, Option.getD_some,
      List.length_drop]
    congr 2
    rw [hcons, List.length_cons]
    omega

/-- However a decimal is laid out, it is spelled. -/
theorem Digits.WellFormed.exists_spelling (style : DecimalStyle) (hd : d.WellFormed) :
    ∃ s, Spells style d s := by
  by_cases hstyle : style.positionalAbove < d.point ∧ d.point ≤ style.positionalUpTo
  · by_cases hpoint : d.point ≤ 0
    · exact ⟨_, spells_below_one hd hstyle hpoint⟩
    · by_cases hcount : d.digits.length ≤ d.point.toNat
      · exact ⟨_, spells_integer hd hstyle (not_le.1 hpoint) hcount⟩
      · exact ⟨_, spells_point hd hstyle (not_le.1 hpoint) (not_le.1 hcount)⟩
  · exact ⟨_, spells_exponent hd hstyle⟩

/-- **The text of a number is a numeral for it.** The text of a finite number is a spelling with a
point or an exponent, and what it spells is read as that number. -/
theorem exists_spelling_decimalText (negative : Bool) {m : Nat} {e : Int} (h : Canonical m e) :
    ∃ s : Spelling, s.WellFormed ∧ (s.fraction ≠ [] ∨ s.exponent ≠ none) ∧
      (finite negative m e h).decimalText =
        signText negative ++ s.text decimalStyle.exponentWidth ∧
      (s.numeral negative).toBinary64 = finite negative m e h := by
  rcases Nat.eq_zero_or_pos m with rfl | hm
  · -- Zero has no shortest digits, and only one canonical form.
    obtain rfl : e = -1074 := h.2.2.2.resolve_left (by decide)
    refine ⟨⟨['0'], ['0'], none⟩, ⟨by simp, by simp, '0', [], rfl, fun _ => rfl⟩, .inl (by simp),
      ?_, ?_⟩
    · cases negative <;> rfl
    · cases negative <;> rfl
  · obtain ⟨hdigits, hround⟩ := shortestDigits_spec h hm
    obtain ⟨s, hs⟩ := hdigits.exists_spelling decimalStyle
    refine ⟨s, hs.wellFormed, hs.marked, ?_, ?_⟩
    · rw [hs.text, decimalText, if_neg hm.ne']
      rfl
    · rw [← hs.magnitude negative] at hround
      exact Numeral.toBinary64_eq (s.isDecimal_numeral negative hs.wellFormed) h hm hround

end Binary64

namespace Number

open Text

/-- The spelling of an integer: its digits alone. -/
def integerSpelling (n : Nat) : Spelling := ⟨Nat.toDigits 10 n, [], none⟩

theorem wellFormed_integerSpelling (n : Nat) : (integerSpelling n).WellFormed := by
  refine ⟨isDigit_toDigits n, by simp [integerSpelling], ?_⟩
  obtain ⟨c, t, hcons⟩ := List.exists_cons_of_ne_nil (Nat.toDigits_ne_nil (b := 10) (n := n))
  refine ⟨c, t, hcons, ?_⟩
  rintro rfl
  rcases Nat.eq_zero_or_pos n with rfl | hn
  · cases hcons
    rfl
  · have hfirst := head?_toDigits hn
    rw [hcons] at hfirst
    exact absurd rfl hfirst

theorem intText_eq (n : Int) (width : Nat) :
    intText n = signText (n < 0) ++ (integerSpelling n.natAbs).text width := by
  simp [intText, integerSpelling, Spelling.text, Spelling.fractionText, Spelling.tailText, signText,
    ofNat]

end Number

end SvgAssets
