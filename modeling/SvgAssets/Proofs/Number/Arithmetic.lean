/-
# SvgAssets.Proofs.Number.Arithmetic -- the operations on numbers, by values

Each operation on numbers is the exact operation on their values, rounded once, and each test on
numbers is the test on their values. Where an integer becomes a binary64 number, and where integers
are divided, the error that takes the place of an infinity is told by the value as well. A numeral
is read as its value, rounded (`Numeral.isRounded_toBinary64`).
-/
import SvgAssets.Proofs.Number.Nearest
import SvgAssets.Proofs.Number.Numerals

namespace SvgAssets

namespace Binary64

variable {x y : Binary64} {p q : ℚ}

/-- **Products.** A product of numbers is the number nearest to the product of their values. -/
theorem isRounded_mul (hx : x.value? = some p) (hy : y.value? = some q) :
    IsRounded (x.mul y) (p * q) := by
  obtain ⟨a, m, e, hc, rfl, rfl⟩ := exists_finite_of_value? hx
  obtain ⟨b, n, f, hc', rfl, rfl⟩ := exists_finite_of_value? hy
  obtain ⟨hden, hvalue⟩ := quotient_spec (m * n) (e + f)
  have hround := isRounded_roundQuotient (a != b) (quotient (m * n) (e + f)).1 hden
  rw [hvalue, Nat.cast_mul, zpow_add₀ two_ne_zero, mul_mul_mul_comm, ← signed_mul_signed] at hround
  exact hround

/-- **Quotients.** A quotient of numbers is the number nearest to the quotient of their values. -/
theorem isRounded_div (hx : x.value? = some p) (hy : y.value? = some q) (hq : q ≠ 0) :
    IsRounded (x.div y) (p / q) := by
  obtain ⟨a, m, e, hc, rfl, rfl⟩ := exists_finite_of_value? hx
  obtain ⟨b, n, f, hc', rfl, rfl⟩ := exists_finite_of_value? hy
  obtain ⟨hden, hvalue⟩ := quotient_spec m e
  obtain ⟨hden', hvalue'⟩ := quotient_spec n f
  have hn : n ≠ 0 := by
    rintro rfl
    exact hq (signed_eq_zero.2 (by rw [Nat.cast_zero, zero_mul]))
  have hnum : 0 < (quotient n f).1 := by
    rw [Nat.pos_iff_ne_zero]
    intro hzero
    rw [hzero, Nat.cast_zero, zero_div] at hvalue'
    exact hq (signed_eq_zero.2 hvalue'.symm)
  have hround := isRounded_roundQuotient (a != b)
    ((quotient m e).1 * (quotient n f).2) (Nat.mul_pos hden hnum)
  rw [Nat.cast_mul, Nat.cast_mul, ← div_div_div_eq, hvalue, hvalue', ← signed_div_signed] at hround
  rw [div, if_neg hn]
  exact hround

/-- A signed quotient as the quotient of a signed integer. -/
theorem signed_div_eq (negative : Bool) (num den : Nat) :
    signed negative ((num : ℚ) / den) = ((if negative then -num else num : Int) : ℚ) / den := by
  cases negative with
  | true => simp [signed, neg_div]
  | false => simp [signed]

/-- **Rounding down.** The integer below a number is the floor of its value. -/
theorem floor?_eq (x : Binary64) : x.floor? = x.value?.map Int.floor := by
  cases x with
  | nan => rfl
  | infinity => rfl
  | finite negative m e =>
    obtain ⟨-, hvalue⟩ := quotient_spec m e
    rw [floor?, value?, Option.map_some, ← hvalue, signed_div_eq, Rat.floor_intCast_div_natCast]
    dsimp only
    rw [Int.fdiv_eq_ediv_of_nonneg _ (Int.natCast_nonneg _)]

/-- **Integers.** A number is equal to an integer if its value is. -/
theorem toInt?_eq_some_iff {n : Int} : x.toInt? = some n ↔ x.value? = some (n : ℚ) := by
  cases x with
  | nan => simp [toInt?, value?]
  | infinity => simp [toInt?, value?]
  | finite negative m e =>
    obtain ⟨hden, hvalue⟩ := quotient_spec m e
    rw [toInt?, value?, ← hvalue]
    dsimp only
    generalize (quotient m e).1 = num
    generalize (quotient m e).2 = den at hden ⊢
    have hne : (den : ℚ) ≠ 0 := by exact_mod_cast hden.ne'
    by_cases hdvd : num % den = 0
    · obtain ⟨k, rfl⟩ := Nat.dvd_of_mod_eq_zero hdvd
      rw [if_pos hdvd, Nat.mul_div_cancel_left k hden, Nat.cast_mul, mul_div_cancel_left₀ _ hne,
        Option.some_inj, Option.some_inj]
      cases negative with
      | true =>
        rw [if_pos rfl, signed, if_pos rfl]
        exact ⟨fun h => by rw [← h]; push_cast; rfl, fun h => by exact_mod_cast h⟩
      | false =>
        rw [if_neg Bool.false_ne_true, signed, if_neg Bool.false_ne_true]
        exact ⟨fun h => by rw [← h]; rfl, fun h => by exact_mod_cast h⟩
    · rw [if_neg hdvd]
      refine ⟨fun h => (by cases h), fun h => absurd ?_ hdvd⟩
      rw [Option.some_inj] at h
      have habs : (num : ℚ) / den = (n.natAbs : ℚ) := by
        rw [Nat.cast_natAbs, Int.cast_abs, ← h, abs_signed, abs_of_nonneg (by positivity)]
      rw [div_eq_iff hne] at habs
      have hmul : num = n.natAbs * den := by exact_mod_cast habs
      rw [hmul, Nat.mul_mod_left]

theorem isZero_iff : x.isZero = true ↔ x.value? = some 0 := by
  cases x with
  | nan => exact ⟨nofun, nofun⟩
  | infinity => exact ⟨nofun, nofun⟩
  | finite negative m e =>
    have hunit : (2 : ℚ) ^ e ≠ 0 := by positivity
    rw [isZero, beq_iff_eq, value?, Option.some_inj, signed_eq_zero, mul_eq_zero,
      or_iff_left hunit, Nat.cast_eq_zero]

/-- The canonical form of a value is the only one. -/
theorem Canonical.unique {m n : Nat} {e f : Int} (h : Canonical m e) (h' : Canonical n f)
    (hm : 0 < m) (hn : 0 < n) (heq : (m : ℚ) * 2 ^ e = n * 2 ^ f) : m = n ∧ e = f := by
  obtain ⟨hden, hvalue⟩ := quotient_spec m e
  have hround := roundQuotient_eq false h hm hden (hvalue ▸ roundsTo_self hm e)
  rw [roundQuotient_eq false h' hn hden ((hvalue.trans heq) ▸ roundsTo_self hn f),
    finite.injEq] at hround
  exact ⟨hround.2.1.symm, hround.2.2.symm⟩

/-- A value that is not zero is that of one number. -/
theorem eq_of_value? (hx : x.value? = some q) (hy : y.value? = some q) (hq : q ≠ 0) : x = y := by
  obtain ⟨a, m, e, hc, rfl, hxq⟩ := exists_finite_of_value? hx
  obtain ⟨b, n, f, hc', rfl, hyq⟩ := exists_finite_of_value? hy
  have hpos {k : Nat} {g : Int} {c : Bool} (h : q = signed c (k * 2 ^ g)) : 0 < k := by
    rw [Nat.pos_iff_ne_zero]
    rintro rfl
    exact hq (by rw [h, signed_eq_zero, Nat.cast_zero, zero_mul])
  have habs : (m : ℚ) * 2 ^ e = n * 2 ^ f := by
    have := congrArg abs (hxq.symm.trans hyq)
    rwa [abs_signed, abs_signed, abs_of_nonneg (by positivity),
      abs_of_nonneg (by positivity)] at this
  obtain ⟨rfl, rfl⟩ := hc.unique hc' (hpos hxq) (hpos hyq) habs
  have hsign : a = b := by
    have hmul : (0 : ℚ) < m * 2 ^ e := by
      have : (0 : ℚ) < m := by exact_mod_cast hpos hxq
      positivity
    rw [hyq] at hxq
    cases a <;> cases b <;> simp only [signed] at hxq <;> grind
  rw [hsign]

/-- **Equality.** Numbers are equal if their values are, and infinities if they are the same. -/
theorem equal_iff : x.equal y = true ↔
    (∃ q, x.value? = some q ∧ y.value? = some q) ∨
      ∃ negative, x = .infinity negative ∧ y = .infinity negative := by
  by_cases hnan : ∃ object, x = .nan object ∨ y = .nan object
  · obtain ⟨object, hnan⟩ := hnan
    have hequal : x.equal y = false := by
      rcases hnan with rfl | rfl
      · rfl
      · cases x <;> rfl
    rw [hequal]
    rcases hnan with rfl | rfl <;> simp [value?]
  · have hx (object : Nat) : x ≠ .nan object := fun h => hnan ⟨object, .inl h⟩
    have hy (object : Nat) : y ≠ .nan object := fun h => hnan ⟨object, .inr h⟩
    have hequal : x.equal y = (x.isZero && y.isZero || x == y) := by
      cases x <;> cases y <;> first | rfl | simp_all
    rw [hequal, Bool.or_eq_true, Bool.and_eq_true, isZero_iff, isZero_iff, beq_iff_eq]
    constructor
    · rintro (⟨hx, hy⟩ | rfl)
      · exact .inl ⟨0, hx, hy⟩
      · cases x with
        | nan object => exact absurd rfl (hx object)
        | infinity negative => exact .inr ⟨negative, rfl, rfl⟩
        | finite => exact .inl ⟨_, rfl, rfl⟩
    · rintro (⟨q, hx, hy⟩ | ⟨negative, rfl, rfl⟩)
      · by_cases hq : q = 0
        · subst hq
          exact .inl ⟨hx, hy⟩
        · exact .inr (eq_of_value? hx hy hq)
      · exact .inr rfl

end Binary64

namespace Number

open Binary64

/-- The rational that a number is equal to. -/
def value? : Number → Option ℚ
  | .int n => some n
  | .float x => x.value?

/-- **Equality across the two kinds.** -/
theorem equal_iff {x y : Number} : x.equal y = true ↔
    (∃ q, x.value? = some q ∧ y.value? = some q) ∨
      ∃ negative, x = .float (.infinity negative) ∧ y = .float (.infinity negative) := by
  cases x with
  | int a =>
    cases y with
    | int b =>
      rw [equal, beq_iff_eq]
      constructor
      · rintro rfl
        exact .inl ⟨a, rfl, rfl⟩
      · rintro (⟨q, hx, hy⟩ | ⟨_, h, -⟩)
        · rw [value?, Option.some_inj] at hx hy
          exact_mod_cast hx.trans hy.symm
        · cases h
    | float y => simp [equal, equalInt, value?, toInt?_eq_some_iff]
  | float x =>
    cases y with
    | int b => simp [equal, equalInt, value?, toInt?_eq_some_iff]
    | float y => simp [equal, value?, Binary64.equal_iff]

/-! ## Rounding integers -/

/-- A number becomes the binary64 number nearest to it. -/
theorem exists_toBinary64 {n : Number} {q r : ℚ} (hn : n.value? = some q)
    (hr : nearest? q = some r) : ∃ x, n.toBinary64 = .ok x ∧ x.value? = some r := by
  cases n with
  | float x =>
    rw [nearest?_value hn, Option.some_inj] at hr
    exact ⟨x, rfl, hr ▸ hn⟩
  | int n =>
    rw [value?, Option.some_inj] at hn
    have hvalue : (ofInt n).value? = some r := (isRounded_ofInt n).value.trans (hn ▸ hr)
    obtain ⟨negative, m, e, hc, hfinite, -⟩ := exists_finite_of_value? hvalue
    refine ⟨ofInt n, ?_, hvalue⟩
    rw [toBinary64, hfinite]

/-- An integer from the limit on does not become a binary64 number. -/
theorem toBinary64_of_limit_le {n : Int} (h : limit ≤ |(n : ℚ)|) :
    (int n).toBinary64 = .error .integerTooLarge := by
  obtain ⟨negative, hinfinity⟩ := (isRounded_ofInt n).eq_infinity h
  rw [toBinary64, hinfinity]

/-- The quotient of integers is rounded once. -/
theorem isRounded_quotient (a : Int) {b : Int} (hb : b ≠ 0) :
    IsRounded (roundQuotient (decide (a < 0) != decide (b < 0)) a.natAbs b.natAbs) (a / b) := by
  have h := isRounded_roundQuotient (decide (a < 0) != decide (b < 0)) a.natAbs
    (Int.natAbs_pos.2 hb)
  rwa [← signed_div_signed, signed_natAbs, signed_natAbs] at h

theorem exists_div_int {a b : Int} (hb : b ≠ 0) {r : ℚ} (hr : nearest? (a / b) = some r) :
    ∃ x, (int a).div (int b) = .ok x ∧ x.value? = some r := by
  have hvalue := (isRounded_quotient a hb).value.trans hr
  obtain ⟨negative, m, e, hc, hfinite, -⟩ := exists_finite_of_value? hvalue
  refine ⟨_, ?_, hvalue⟩
  rw [div, hfinite]

theorem div_int_of_limit_le {a b : Int} (hb : b ≠ 0) (h : limit ≤ |(a / b : ℚ)|) :
    (int a).div (int b) = .error .quotientTooLarge := by
  obtain ⟨negative, hinfinity⟩ := (isRounded_quotient a hb).eq_infinity h
  rw [div, hinfinity]

theorem floor_of_value? {x : Binary64} {q : ℚ} (h : x.value? = some q) : floor x = .ok ⌊q⌋ := by
  have hfloor : x.floor? = some ⌊q⌋ := by rw [floor?_eq, h, Option.map_some]
  unfold floor
  rw [hfloor]

theorem isZero_iff {n : Number} : n.isZero = true ↔ n.value? = some 0 := by
  cases n with
  | int n => simp [isZero, value?]
  | float x => exact Binary64.isZero_iff

end Number

/-! ## Reading -/

namespace Text

theorem digitValue?_lt {c : Char} {d : Nat} (h : digitValue? c = some d) : d < 10 := by
  obtain ⟨first, hfind, rfl⟩ := Option.map_eq_some_iff.1 h
  have hrange := List.find?_some hfind
  rw [Bool.and_eq_true, decide_eq_true_eq, decide_eq_true_eq] at hrange
  omega

theorem readDigits_lt (s : Text) : ∀ d ∈ (readDigits s).1, d < 10 := by
  induction s with
  | nil => exact nofun
  | cons c s ih =>
    rw [readDigits]
    split
    · rename_i d hd
      exact List.forall_mem_cons.2 ⟨digitValue?_lt hd, ih⟩
    · exact nofun

/-- The digits of a numeral that is read are decimal digits. -/
theorem isDecimal_of_readMantissa {s rest : Text} {n : Numeral}
    (h : readMantissa s = some (n, rest)) : n.IsDecimal := by
  have hbehind {t : Text} {ds : List Nat} {u : Text} (hread : readDigits t = (ds, u)) :
      ∀ d ∈ ds, d < 10 := by
    have := readDigits_lt t
    rwa [hread] at this
  unfold readMantissa at h
  dsimp only at h
  split at h
  · split at h
    · cases h
    · rename_i hread
      cases h
      exact hbehind hread
  · cases h
  · rename_i hread
    cases h
    intro d hd
    exact (List.mem_append.1 hd).elim (hbehind hread d) (readDigits_lt _ d)
  · rename_i hread
    cases h
    intro d hd
    exact hbehind hread d (by simpa using hd)

theorem isDecimal_of_readNumeral {s rest : Text} {n : Numeral}
    (h : readNumeral s = some (n, rest)) : n.IsDecimal := by
  obtain ⟨⟨mantissa, behind⟩, hread, hn⟩ := Option.map_eq_some_iff.1 h
  cases hn
  have hdecimal : mantissa.IsDecimal := isDecimal_of_readMantissa hread
  exact hdecimal

end Text

namespace Numeral

open Binary64

/-- **Reading a numeral.** A numeral is read as its value, rounded. -/
theorem isRounded_toBinary64 {n : Numeral} (hn : n.IsDecimal) :
    IsRounded n.toBinary64 (signed n.negative n.magnitude) := by
  have hten : (1 : ℚ) ≤ 10 := by norm_num
  have hzero (h : nearest? (signed n.negative n.magnitude) = some 0) :
      IsRounded (zero n.negative) (signed n.negative n.magnitude) := by
    refine ⟨?_, by simp [zero]⟩
    rw [h, zero, value?, Nat.cast_zero, zero_mul, signed_eq_zero.2 rfl]
  unfold toBinary64
  rw [← significant]
  dsimp only
  split
  · rename_i hvalue
    refine hzero ?_
    rw [magnitude_eq, hvalue, Nat.cast_zero, zero_mul, signed_eq_zero.2 rfl]
    exact nearest?_zero
  rename_i hvalue
  have hne : n.significant ≠ [] := fun hnil => hvalue (by rw [hnil]; rfl)
  obtain ⟨hlow, hhigh⟩ := magnitude_bounds hn hne
  have hpos : 0 ≤ n.magnitude := le_trans (by positivity) hlow
  split
  · -- The powers of ten that are not computed are beyond the limit, or below the least number.
    rename_i hpoint
    refine ⟨(nearest?_eq_none_iff.2 ?_).symm, by simp⟩
    rw [abs_signed, abs_of_nonneg hpos]
    calc limit ≤ 2 ^ (53 + 971 : Int) := limit_lt_pow.le
      _ ≤ 10 ^ (400 : Int) := pow_two_lt_pow_ten.le
      _ ≤ 10 ^ ((n.significant.length : Int) + n.scale - 1) := zpow_le_zpow_right₀ hten (by omega)
      _ ≤ n.magnitude := hlow
  split
  · rename_i hpoint
    refine hzero (nearest?_eq_zero ?_)
    rw [abs_signed, abs_of_nonneg hpos]
    calc n.magnitude ≤ 10 ^ ((n.significant.length : Int) + n.scale) := hhigh.le
      _ ≤ 10 ^ (-401 : Int) := zpow_le_zpow_right₀ hten (by omega)
      _ ≤ 2 ^ (-1076 : Int) := pow_ten_lt_pow_two.le
      _ ≤ 2 ^ (-1075 : Int) := zpow_le_zpow_right₀ one_le_two (by decide)
  split
  · rename_i hscale
    have hround := isRounded_roundQuotient n.negative
      (Text.decimalValue n.significant * 10 ^ n.scale.toNat) Nat.one_pos
    convert hround using 2
    rw [magnitude_eq]
    conv_lhs => rw [← Int.toNat_of_nonneg hscale, zpow_natCast]
    push_cast
    rw [div_one]
  · rename_i hscale
    have hround := isRounded_roundQuotient n.negative (Text.decimalValue n.significant)
      (show 0 < 10 ^ (-n.scale).toNat by positivity)
    have hneg : n.scale = -((-n.scale).toNat : Int) := by omega
    convert hround using 2
    rw [magnitude_eq]
    conv_lhs => rw [hneg, zpow_neg, zpow_natCast]
    push_cast
    rw [div_eq_mul_inv]

end Numeral

end SvgAssets
