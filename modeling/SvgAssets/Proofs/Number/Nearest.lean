/-
# SvgAssets.Proofs.Number.Nearest -- arithmetic as exact arithmetic and one rounding

A finite number has a rational value. Rounding a quotient depends on its value alone
(`roundQuotient_congr`), so that there is one rounding of rationals, `nearest?`: it has no result
from halfway between the greatest number and the next power of two on (`nearest?_eq_none_iff`),
leaves the values of numbers as they are (`nearest?_value`) and moves any other rational by at most
half a unit of its last place (`abs_sub_le_of_nearest?`). Each operation on numbers is the exact
operation on their values, rounded once, and what tells integers and zeros apart reads the value.
-/
import Mathlib.Algebra.Order.Floor.Ring
import Mathlib.Data.Rat.Floor
import SvgAssets.Number
import SvgAssets.Proofs.Number.ShortestDigits

namespace SvgAssets

namespace Binary64

/-! ## The multiple of a unit that is nearest -/

/-- `k * 2 ^ e` is at most half a unit away from `q`, and less than that where `k` is odd. -/
structure NearestMultiple (k : Nat) (e : Int) (q : ℚ) : Prop where
  le : (k : ℚ) * 2 ^ e ≤ q + 2 ^ e / 2
  ge : q ≤ k * 2 ^ e + 2 ^ e / 2
  odd : k % 2 = 1 → (k : ℚ) * 2 ^ e < q + 2 ^ e / 2 ∧ q < k * 2 ^ e + 2 ^ e / 2

theorem NearestMultiple.abs_sub_le {k : Nat} {e : Int} {q : ℚ} (h : NearestMultiple k e q) :
    |(k : ℚ) * 2 ^ e - q| ≤ 2 ^ e / 2 :=
  abs_sub_le_iff.2 ⟨by linarith [h.le], by linarith [h.ge]⟩

/-- Rounding to an integer moves by at most a half, and by less than that to an odd one. -/
theorem roundHalfEven_spec (n : Nat) {d : Nat} (hd : 0 < d) :
    2 * (roundHalfEven n d * d) ≤ 2 * n + d ∧ 2 * n ≤ 2 * (roundHalfEven n d * d) + d ∧
      (roundHalfEven n d % 2 = 1 → 2 * (roundHalfEven n d * d) < 2 * n + d ∧
        2 * n < 2 * (roundHalfEven n d * d) + d) := by
  have hdiv : n / d * d + n % d = n := Nat.div_add_mod' n d
  have hmod : n % d < d := Nat.mod_lt n hd
  have hnext : (n / d + 1) * d = n / d * d + d := by rw [Nat.add_mul, Nat.one_mul]
  unfold roundHalfEven
  dsimp only
  split
  · omega
  · split
    · omega
    · rcases Nat.mod_two_eq_zero_or_one (n / d) with h | h
      · rw [h, Nat.add_zero]; omega
      · rw [h]; omega

/-- A quotient is rounded to the nearest multiple of the unit at its exponent. -/
theorem exists_nearestMultiple (negative : Bool) {num den : Nat} (hnum : num ≠ 0) (hden : 0 < den) :
    ∃ k, NearestMultiple k (quotientExponent num den) (num / den) ∧
      roundQuotient negative num den = ofMantissa negative k (quotientExponent num den) := by
  obtain ⟨n, d, hd, hq, hround, -⟩ := exists_scaled num hden (quotientExponent num den)
  have hunit : (0 : ℚ) < 2 ^ quotientExponent num den := by positivity
  obtain ⟨hlow, hhigh, hodd⟩ := roundHalfEven_spec n hd
  have hvalue : (num : ℚ) / den = n / d * 2 ^ quotientExponent num den := by
    rw [hq, div_mul_cancel₀ _ hunit.ne']
  refine ⟨roundHalfEven n d, ?_, ?_⟩
  · rw [hvalue]
    exact ⟨(unit_le_iff hd hunit).1.2 hlow, (le_unit_iff hd hunit).1.2 hhigh, fun h =>
      ⟨(unit_le_iff hd hunit).2.2 (hodd h).1, (le_unit_iff hd hunit).2.2 (hodd h).2⟩⟩
  · rw [roundQuotient, if_neg hnum]
    dsimp only
    rw [hround]

theorem roundQuotient_of_nearestMultiple (negative : Bool) {num den : Nat} (hnum : num ≠ 0)
    (hden : 0 < den) {e : Int} (he : quotientExponent num den = e) {k : Nat}
    (h : NearestMultiple k e (num / den)) :
    roundQuotient negative num den = ofMantissa negative k e :=
  roundQuotient_eq_ofMantissa negative hnum hden he h.le h.ge h.odd

/-! ## Rounding depends on the value alone -/

theorem bitExponent_le {num den : Nat} (hnum : num ≠ 0) (hden : 0 < den) {b : Int}
    (h : (num : ℚ) / den < 2 ^ (53 + b)) : bitExponent num den ≤ b := by
  have := (zpow_lt_zpow_iff_right₀ one_lt_two).1
    (lt_of_le_of_lt (bitExponent_spec hnum hden).1 h)
  omega

theorem le_bitExponent {num den : Nat} (hnum : num ≠ 0) (hden : 0 < den) {b : Int}
    (h : (2 : ℚ) ^ (52 + b) ≤ num / den) : b ≤ bitExponent num den := by
  have := (zpow_lt_zpow_iff_right₀ one_lt_two).1
    (lt_of_le_of_lt h (bitExponent_spec hnum hden).2)
  omega

theorem quotientExponent_congr {num den num' den' : Nat} (hnum : num ≠ 0) (hden : 0 < den)
    (hnum' : num' ≠ 0) (hden' : 0 < den') (h : (num : ℚ) / den = num' / den') :
    quotientExponent num den = quotientExponent num' den' := by
  rw [quotientExponent_eq, quotientExponent_eq]
  congr 1
  refine le_antisymm (bitExponent_le hnum hden ?_) (le_bitExponent hnum hden ?_)
  · exact h ▸ (bitExponent_spec hnum' hden').2
  · exact h ▸ (bitExponent_spec hnum' hden').1

/-- **Rounding depends on the value alone.** However a quotient is written, it rounds to the same
number. -/
theorem roundQuotient_congr (negative : Bool) {num den num' den' : Nat} (hden : 0 < den)
    (hden' : 0 < den') (h : (num : ℚ) / den = num' / den') :
    roundQuotient negative num den = roundQuotient negative num' den' := by
  have hzero : num = 0 ↔ num' = 0 := by
    have hne : (den : ℚ) ≠ 0 := by exact_mod_cast hden.ne'
    have hne' : (den' : ℚ) ≠ 0 := by exact_mod_cast hden'.ne'
    rw [div_eq_div_iff hne hne'] at h
    constructor
    · rintro rfl
      rw [Nat.cast_zero, zero_mul, zero_eq_mul, or_iff_left hne] at h
      exact_mod_cast h
    · rintro rfl
      rw [Nat.cast_zero, zero_mul, mul_eq_zero, or_iff_left hne'] at h
      exact_mod_cast h
  by_cases hnum : num = 0
  · rw [roundQuotient, if_pos hnum, roundQuotient, if_pos (hzero.1 hnum)]
  · have hnum' := mt hzero.2 hnum
    obtain ⟨k, hk, hround⟩ := exists_nearestMultiple negative hnum hden
    rw [hround]
    rw [h] at hk
    exact (roundQuotient_of_nearestMultiple negative hnum' hden'
      (quotientExponent_congr hnum hden hnum' hden' h).symm hk).symm

/-! ## The range of the numbers -/

/-- Halfway between the greatest number and the next power of two. -/
def limit : ℚ := 2 ^ 1024 - 2 ^ 970

/-- A power of two as a multiple of another one. -/
theorem pow_add_eq (k : Nat) (e : Int) : (2 : ℚ) ^ (k + e) = (2 ^ k : Nat) * 2 ^ e := by
  rw [zpow_add₀ two_ne_zero, zpow_natCast]
  push_cast
  rfl

theorem half_pow (e : Int) : (2 : ℚ) ^ e / 2 = 2 ^ (e - 1) := by
  rw [zpow_sub_one₀ two_ne_zero, div_eq_mul_inv]

theorem limit_eq : limit = ((2 ^ 54 : Nat) : ℚ) * 2 ^ (970 : Int) - 2 ^ (970 : Int) := by
  have hpow : (2 : ℚ) ^ (970 : Int) = 2 ^ 970 := zpow_natCast 2 970
  rw [hpow, limit, Nat.cast_pow, Nat.cast_ofNat, ← pow_add]

theorem pow_lt_limit : (2 : ℚ) ^ (52 + 971 : Int) < limit := by
  have hunit : (0 : ℚ) < 2 ^ (970 : Int) := by positivity
  have hpow : (2 : ℚ) ^ (52 + 971 : Int) = (2 ^ 53 : Nat) * 2 ^ (970 : Int) := pow_add_eq 53 970
  have hbits : ((2 ^ 53 : Nat) : ℚ) + 1 < (2 ^ 54 : Nat) := by norm_num
  rw [limit_eq, hpow, lt_sub_iff_add_lt, ← add_one_mul]
  exact mul_lt_mul_of_pos_right hbits hunit

theorem limit_lt_pow : limit < 2 ^ (53 + 971 : Int) := by
  have hpow : (2 : ℚ) ^ (53 + 971 : Int) = (2 ^ 54 : Nat) * 2 ^ (970 : Int) := pow_add_eq 54 970
  rw [limit_eq, hpow]
  exact sub_lt_self _ (by positivity)

/-- At the greatest exponent the limit is half a unit below the mantissa that is carried over. -/
theorem limit_add_half : limit + 2 ^ (971 : Int) / 2 = (2 ^ precision : Nat) * 2 ^ (971 : Int) := by
  have hpow : ((2 ^ 54 : Nat) : ℚ) * 2 ^ (970 : Int) = (2 ^ 53 : Nat) * 2 ^ (971 : Int) :=
    (pow_add_eq 54 970).symm.trans (pow_add_eq 53 971)
  rw [limit_eq, half_pow, hpow]
  exact sub_add_cancel _ _

theorem ofMantissa_eq_infinity (negative : Bool) {k : Nat} {e : Int}
    (h : 971 < e ∨ e = 971 ∧ k = 2 ^ precision) : ofMantissa negative k e = .infinity negative := by
  unfold ofMantissa
  by_cases hk : k = 2 ^ precision
  · simp only [if_pos hk]
    rw [dif_neg fun hc => absurd hc.2.2.1 (by omega)]
  · simp only [if_neg hk]
    rw [dif_neg fun hc => absurd hc.2.2.1 (by omega)]

/-- From the limit on a quotient rounds to an infinity. -/
theorem roundQuotient_of_limit_le (negative : Bool) {num den : Nat} (hden : 0 < den)
    (h : limit ≤ num / den) : roundQuotient negative num den = .infinity negative := by
  have hpow : (2 : ℚ) ^ (52 + 971 : Int) < num / den := lt_of_lt_of_le pow_lt_limit h
  have hnum : num ≠ 0 := by
    rintro rfl
    rw [Nat.cast_zero, zero_div] at hpow
    exact absurd hpow (not_lt.2 (by positivity))
  have he := le_bitExponent hnum hden hpow.le
  rw [← max_eq_right (show (-1074 : Int) ≤ bitExponent num den by omega),
    ← quotientExponent_eq] at he
  rcases he.lt_or_eq with hlt | heq
  · obtain ⟨k, -, hround⟩ := exists_nearestMultiple negative hnum hden
    rw [hround, ofMantissa_eq_infinity negative (.inl hlt)]
  · -- At the greatest exponent the mantissa is carried over.
    have hbits := (bitExponent_spec hnum hden).2
    have hunit : (0 : ℚ) < 2 ^ (971 : Int) := by positivity
    have hexponent : bitExponent num den = 971 := by
      rw [quotientExponent_eq] at heq
      omega
    rw [hexponent] at hbits
    have hround : NearestMultiple (2 ^ precision) 971 (num / den) :=
      ⟨by rw [← limit_add_half]; linarith, by
        have hcarry : (2 : ℚ) ^ (53 + 971 : Int) = (2 ^ precision : Nat) * 2 ^ (971 : Int) :=
          pow_add_eq 53 971
        rw [← hcarry]
        exact hbits.le.trans (le_add_of_nonneg_right (by positivity)),
      fun hodd => absurd hodd (by decide)⟩
    rw [roundQuotient_of_nearestMultiple negative hnum hden heq.symm hround,
      ofMantissa_eq_infinity negative (.inr ⟨rfl, rfl⟩)]

/-- A mantissa of at most 53 bits, or carried over, at an exponent of the range is a number. -/
theorem exists_ofMantissa_eq (negative : Bool) {k : Nat} {e : Int} (hk : k ≤ 2 ^ precision)
    (hleast : -1074 ≤ e) (hgreatest : e ≤ 971) (hfull : 2 ^ (precision - 1) ≤ k ∨ e = -1074)
    (htop : e = 971 → k ≠ 2 ^ precision) :
    ∃ m f, ∃ h : Canonical m f, ofMantissa negative k e = .finite negative m f h ∧
      (m : ℚ) * 2 ^ f = k * 2 ^ e := by
  by_cases hcarry : k = 2 ^ precision
  · have hc : Canonical (2 ^ (precision - 1)) (e + 1) := ⟨by decide, by omega, by
      have : e ≠ 971 := fun h => htop h hcarry
      omega, .inl le_rfl⟩
    subst hcarry
    refine ⟨_, _, hc, ofMantissa_carry negative hc, ?_⟩
    rw [zpow_add_one₀ two_ne_zero]
    norm_num
    ring
  · have hc : Canonical k e := ⟨lt_of_le_of_ne hk hcarry, hleast, hgreatest, hfull⟩
    exact ⟨k, e, hc, ofMantissa_eq negative hc, rfl⟩

theorem le_of_mul_le_add_half {a b : Nat} {u : ℚ} (hu : 0 < u) (h : (a : ℚ) * u ≤ b * u + u / 2) :
    a ≤ b := by
  have hlt : (a : ℚ) < b + 1 := by
    rw [← mul_lt_mul_iff_left₀ hu]
    linarith
  have : a < b + 1 := by exact_mod_cast hlt
  omega

/-- The mantissa of a quotient has 53 bits, unless the exponent is the least one. -/
theorem mantissa_bounds {num den : Nat} (hnum : num ≠ 0) (hden : 0 < den) {k : Nat}
    (h : NearestMultiple k (quotientExponent num den) (num / den)) :
    k ≤ 2 ^ precision ∧ (2 ^ (precision - 1) ≤ k ∨ quotientExponent num den = -1074) := by
  obtain ⟨hlow, hhigh⟩ := bitExponent_spec hnum hden
  have hunit : (0 : ℚ) < 2 ^ quotientExponent num den := by positivity
  have hroom : (2 : ℚ) ^ (53 + quotientExponent num den) =
      (2 ^ precision : Nat) * 2 ^ quotientExponent num den := pow_add_eq 53 _
  have hbits : (2 : ℚ) ^ (52 + quotientExponent num den) =
      (2 ^ (precision - 1) : Nat) * 2 ^ quotientExponent num den := pow_add_eq 52 _
  constructor
  · have hle : (num : ℚ) / den ≤ 2 ^ (53 + quotientExponent num den) := by
      refine hhigh.le.trans (zpow_le_zpow_right₀ one_le_two ?_)
      rw [quotientExponent_eq]
      omega
    rw [hroom] at hle
    exact le_of_mul_le_add_half hunit (h.le.trans (by gcongr))
  · by_cases heq : quotientExponent num den = -1074
    · exact .inr heq
    · have hfull : bitExponent num den = quotientExponent num den := by
        rw [quotientExponent_eq] at heq ⊢
        omega
      rw [hfull, hbits] at hlow
      exact .inl (le_of_mul_le_add_half hunit (hlow.trans h.ge))

/-- **The error of a rounding.** Below the limit a quotient rounds to a number that is at most half
a unit of its last place away. -/
theorem exists_roundQuotient_eq (negative : Bool) {num den : Nat} (hden : 0 < den)
    (h : (num : ℚ) / den < limit) :
    ∃ m e, ∃ hc : Canonical m e, roundQuotient negative num den = .finite negative m e hc ∧
      |(m : ℚ) * 2 ^ e - num / den| ≤ max ((num : ℚ) / den / 2 ^ 53) (2 ^ (-1075 : Int)) := by
  by_cases hnum : num = 0
  · refine ⟨0, -1074, by decide, by rw [roundQuotient, if_pos hnum, zero], ?_⟩
    subst hnum
    rw [Nat.cast_zero, zero_div, zero_mul, sub_zero, abs_zero]
    exact le_max_of_le_right (by positivity)
  obtain ⟨k, hk, hround⟩ := exists_nearestMultiple negative hnum hden
  obtain ⟨hroom, hfull⟩ := mantissa_bounds hnum hden hk
  have hgreatest : bitExponent num den ≤ 971 :=
    bitExponent_le hnum hden (lt_trans h limit_lt_pow)
  have htop : quotientExponent num den = 971 → k ≠ 2 ^ precision := by
    rintro heq rfl
    have hle := hk.le
    rw [heq, ← limit_add_half] at hle
    linarith
  obtain ⟨m, f, hc, hnumber, hvalue⟩ := exists_ofMantissa_eq negative hroom
    (by rw [quotientExponent_eq]; omega) (by rw [quotientExponent_eq]; omega) hfull htop
  refine ⟨m, f, hc, hround.trans hnumber, ?_⟩
  rw [hvalue]
  refine le_trans hk.abs_sub_le ?_
  rcases le_total (-1074) (bitExponent num den) with hexponent | hexponent
  · refine le_max_of_le_left ?_
    have hlow := (bitExponent_spec hnum hden).1
    rw [quotientExponent_eq, max_eq_right hexponent, half_pow, le_div_iff₀ (by positivity)]
    refine le_trans (le_of_eq ?_) hlow
    rw [← zpow_natCast, ← zpow_add₀ two_ne_zero]
    congr 1
    push_cast
    ring
  · refine le_max_of_le_right (le_of_eq ?_)
    rw [quotientExponent_eq, max_eq_left hexponent, half_pow]
    rfl

/-! ## Values -/

/-- A rational with the sign of a number. -/
def signed (negative : Bool) (q : ℚ) : ℚ := if negative then -q else q

@[simp] theorem abs_signed (negative : Bool) (q : ℚ) : |signed negative q| = |q| := by
  cases negative with
  | true => exact abs_neg q
  | false => rfl

theorem signed_mul_signed (a b : Bool) (p q : ℚ) :
    signed a p * signed b q = signed (a != b) (p * q) := by
  cases a <;> cases b <;> simp [signed]

theorem signed_div_signed (a b : Bool) (p q : ℚ) :
    signed a p / signed b q = signed (a != b) (p / q) := by
  cases a <;> cases b <;> simp [signed, neg_div, div_neg]

theorem signed_sub_signed (negative : Bool) (p q : ℚ) :
    signed negative p - signed negative q = signed negative (p - q) := by
  cases negative with
  | true => exact (neg_sub' p q).symm
  | false => rfl

theorem signed_eq_zero {negative : Bool} {q : ℚ} : signed negative q = 0 ↔ q = 0 := by
  cases negative <;> simp [signed]

/-- An integer is its absolute value with its sign. -/
theorem signed_natAbs (n : Int) : signed (decide (n < 0)) (n.natAbs : ℚ) = n := by
  rw [Nat.cast_natAbs, Int.cast_abs]
  by_cases h : n < 0
  · have hneg : (n : ℚ) < 0 := by exact_mod_cast h
    simp [signed, h, abs_of_neg hneg]
  · have hpos : (0 : ℚ) ≤ n := by exact_mod_cast not_lt.1 h
    simp [signed, h, abs_of_nonneg hpos]

theorem natAbs_num_div_den (q : ℚ) : (q.num.natAbs : ℚ) / q.den = |q| := by
  rw [Nat.cast_natAbs, Int.cast_abs]
  conv_rhs => rw [← Rat.num_div_den q, abs_div, Nat.abs_cast]

/-- The rational that a finite number is equal to. -/
def value? : Binary64 → Option ℚ
  | .finite negative m e _ => some (signed negative (m * 2 ^ e))
  | _ => none

/-- A number that has a value is finite. -/
theorem exists_finite_of_value? {x : Binary64} {q : ℚ} (h : x.value? = some q) :
    ∃ negative m e, ∃ hc : Canonical m e, x = .finite negative m e hc ∧
      q = signed negative (m * 2 ^ e) := by
  cases x with
  | nan => cases h
  | infinity => cases h
  | finite negative m e hc => exact ⟨negative, m, e, hc, rfl, (Option.some_inj.1 h).symm⟩

/-- The value of the number that is nearest to a rational, where there is one. -/
def nearest? (q : ℚ) : Option ℚ := (roundQuotient (decide (q < 0)) q.num.natAbs q.den).value?

/-- A quotient rounds to the number nearest to its value. -/
theorem value?_roundQuotient (negative : Bool) (num : Nat) {den : Nat} (hden : 0 < den) :
    (roundQuotient negative num den).value? = nearest? (signed negative (num / den)) := by
  by_cases hnum : num = 0
  · have hzero : signed negative ((num : ℚ) / den) = 0 := by
      rw [signed_eq_zero, hnum, Nat.cast_zero, zero_div]
    rw [hzero, nearest?, hnum]
    simp [roundQuotient, zero, value?, signed]
  · have hpos : (0 : ℚ) < num / den := by
      have hnumPos : (0 : ℚ) < num := by exact_mod_cast Nat.pos_of_ne_zero hnum
      have hdenPos : (0 : ℚ) < den := by exact_mod_cast hden
      positivity
    have hsign : decide (signed negative ((num : ℚ) / den) < 0) = negative := by
      cases negative with
      | true => exact decide_eq_true (neg_neg_of_pos hpos)
      | false => exact decide_eq_false (not_lt.2 hpos.le)
    rw [nearest?, hsign]
    congr 1
    refine roundQuotient_congr negative hden (Rat.den_pos _) ?_
    rw [natAbs_num_div_den, abs_signed, abs_of_pos hpos]

/-- **The range of the numbers.** Only from the limit on a rational has no nearest number. -/
theorem nearest?_eq_none_iff {q : ℚ} : nearest? q = none ↔ limit ≤ |q| := by
  constructor
  · intro hnone
    by_contra hlt
    rw [not_le, ← natAbs_num_div_den] at hlt
    obtain ⟨m, e, hc, hround, -⟩ := exists_roundQuotient_eq (decide (q < 0)) q.den_pos hlt
    rw [nearest?, hround] at hnone
    cases hnone
  · intro hlimit
    rw [← natAbs_num_div_den] at hlimit
    rw [nearest?, roundQuotient_of_limit_le _ q.den_pos hlimit]
    rfl

/-- A number is a rational rounded: the nearest number, and an infinity where there is none. -/
structure IsRounded (x : Binary64) (q : ℚ) : Prop where
  value : x.value? = nearest? q
  ne_nan : ∀ object, x ≠ .nan object

/-- **Rounding a quotient.** -/
theorem isRounded_roundQuotient (negative : Bool) (num : Nat) {den : Nat} (hden : 0 < den) :
    IsRounded (roundQuotient negative num den) (signed negative (num / den)) := by
  refine ⟨value?_roundQuotient negative num hden, ?_⟩
  rcases le_or_gt limit ((num : ℚ) / den) with h | h
  · rw [roundQuotient_of_limit_le negative hden h]
    exact nofun
  · obtain ⟨m, e, hc, hround, -⟩ := exists_roundQuotient_eq negative hden h
    rw [hround]
    exact nofun

theorem isRounded_ofInt (n : Int) : IsRounded (ofInt n) n := by
  have h := isRounded_roundQuotient (decide (n < 0)) n.natAbs Nat.one_pos
  rwa [Nat.cast_one, div_one, signed_natAbs] at h

theorem IsRounded.eq_infinity {x : Binary64} {q : ℚ} (h : IsRounded x q) (hlimit : limit ≤ |q|) :
    ∃ negative, x = .infinity negative := by
  obtain ⟨hvalue, hnan⟩ := h
  rw [nearest?_eq_none_iff.2 hlimit] at hvalue
  cases x with
  | nan object => exact absurd rfl (hnan object)
  | infinity negative => exact ⟨negative, rfl⟩
  | finite => cases hvalue

/-- **The error of a rounding.** The number nearest to a rational is at most half a unit of its last
place away. -/
theorem abs_sub_le_of_nearest? {q r : ℚ} (h : nearest? q = some r) :
    |r - q| ≤ max (|q| / 2 ^ 53) (2 ^ (-1075 : Int)) := by
  have hlt : |q| < limit := by
    rw [← not_le, ← nearest?_eq_none_iff, h]
    exact Option.some_ne_none r
  have hq : q = signed (decide (q < 0)) |q| := by
    by_cases hneg : q < 0
    · simp [signed, hneg, abs_of_neg hneg]
    · simp [signed, hneg, abs_of_nonneg (not_lt.1 hneg)]
  rw [← natAbs_num_div_den] at hlt
  obtain ⟨m, e, hc, hround, herror⟩ := exists_roundQuotient_eq (decide (q < 0)) q.den_pos hlt
  rw [nearest?, hround, value?, Option.some_inj] at h
  rw [natAbs_num_div_den] at herror
  have hsub : r - q = signed (decide (q < 0)) (m * 2 ^ e - |q|) := by
    rw [← signed_sub_signed, h, ← hq]
  rwa [hsub, abs_signed]

/-- A number lies inside of its own interval. -/
theorem roundsTo_self {m : Nat} (hm : 0 < m) (e : Int) : RoundsTo m e (m * 2 ^ e) := by
  have hquarter : (0 : ℚ) < 2 ^ (e - 2) := by positivity
  have hunit : (m : ℚ) * 2 ^ e = ((4 * m : Nat) : ℚ) * 2 ^ (e - 2) := by
    have hfour : (2 : ℚ) ^ e = (2 ^ 2 : Nat) * 2 ^ (e - 2) := by
      rw [← pow_add_eq]
      congr 1
      push_cast
      ring
    rw [hfour]
    push_cast
    ring
  have hquarters : lowerQuarters m e < 4 * m := by
    unfold lowerQuarters
    split <;> omega
  rw [hunit]
  exact roundsTo_of_lt (by gcongr) (by gcongr; omega)

theorem nearest?_zero : nearest? 0 = some 0 := by
  simp [nearest?, roundQuotient, zero, value?, signed]

/-- A rational of at most half the least number is rounded to zero. -/
theorem nearest?_eq_zero {q : ℚ} (h : |q| ≤ 2 ^ (-1075 : Int)) : nearest? q = some 0 := by
  by_cases hq : q = 0
  · subst hq
    exact nearest?_zero
  have hnum : q.num.natAbs ≠ 0 := Int.natAbs_ne_zero.2 (Rat.num_ne_zero.2 hq)
  rw [← natAbs_num_div_den] at h
  have hexponent : quotientExponent q.num.natAbs q.den = -1074 := by
    rw [quotientExponent_eq]
    refine max_eq_left (bitExponent_le hnum q.den_pos (lt_of_le_of_lt h ?_))
    exact zpow_lt_zpow_right₀ one_lt_two (by decide)
  have hzero : NearestMultiple 0 (-1074) (q.num.natAbs / q.den) := by
    refine ⟨?_, ?_, fun hodd => absurd hodd (by decide)⟩
    · rw [Nat.cast_zero, zero_mul]
      positivity
    · rw [Nat.cast_zero, zero_mul, zero_add, half_pow]
      exact h
  rw [nearest?, roundQuotient_of_nearestMultiple _ hnum q.den_pos hexponent hzero,
    ofMantissa_eq _ (by decide : Canonical 0 (-1074)), value?, Nat.cast_zero, zero_mul,
    signed_eq_zero.2 rfl]

/-- **Numbers are left as they are.** The number nearest to the value of a number is that number. -/
theorem nearest?_value {x : Binary64} {q : ℚ} (h : x.value? = some q) : nearest? q = some q := by
  obtain ⟨negative, m, e, hc, -, rfl⟩ := exists_finite_of_value? h
  rcases Nat.eq_zero_or_pos m with rfl | hm
  · rw [Nat.cast_zero, zero_mul, signed_eq_zero.2 rfl]
    exact nearest?_zero
  · obtain ⟨hden, hvalue⟩ := quotient_spec m e
    rw [← hvalue, ← value?_roundQuotient _ _ hden]
    rw [roundQuotient_eq negative hc hm hden (hvalue ▸ roundsTo_self hm e), value?, hvalue]

/-- An integer of at most 53 bits is a number. -/
theorem exists_value?_natCast {k : Nat} (hk : 0 < k) (h : k < 2 ^ precision) :
    ∃ m e, Canonical m e ∧ (m : ℚ) * 2 ^ e = k := by
  have hlog : k.log2 < precision := (Nat.log2_lt hk.ne').2 h
  have hprecision : precision = 53 := rfl
  have hshift : k.log2 + (52 - k.log2) = 52 := by omega
  refine
    ⟨k * 2 ^ (52 - k.log2), -((52 - k.log2 : Nat) : Int), ⟨?_, by omega, by omega, .inl ?_⟩, ?_⟩
  · calc k * 2 ^ (52 - k.log2) < 2 ^ (k.log2 + 1) * 2 ^ (52 - k.log2) :=
          Nat.mul_lt_mul_of_pos_right Nat.lt_log2_self (Nat.two_pow_pos _)
      _ = 2 ^ precision := by rw [← Nat.pow_add, Nat.add_right_comm, hshift]
  · calc 2 ^ (precision - 1) = 2 ^ k.log2 * 2 ^ (52 - k.log2) := by rw [← Nat.pow_add, hshift]; rfl
      _ ≤ k * 2 ^ (52 - k.log2) := Nat.mul_le_mul_right _ (Nat.log2_self_le hk.ne')
  · rw [zpow_neg, zpow_natCast]
    push_cast
    rw [mul_assoc, mul_inv_cancel₀ (by positivity), mul_one]

/-- **Integers of at most 53 bits are exact.** -/
theorem nearest?_intCast {n : Int} (h : n.natAbs < 2 ^ precision) : nearest? n = some (n : ℚ) := by
  rcases Nat.eq_zero_or_pos n.natAbs with hzero | hpos
  · rw [Int.natAbs_eq_zero.1 hzero, Int.cast_zero]
    exact nearest?_zero
  · obtain ⟨m, e, hc, hvalue⟩ := exists_value?_natCast hpos h
    refine nearest?_value (x := .finite (decide (n < 0)) m e hc) ?_
    rw [value?, hvalue, signed_natAbs]

end Binary64

end SvgAssets
