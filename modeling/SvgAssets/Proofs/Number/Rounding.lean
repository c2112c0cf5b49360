/-
# SvgAssets.Proofs.Number.Rounding -- which quotients round to a number

A number `m * 2 ^ e` is what all rationals round to that lie nearer to it than to its neighbours
(`RoundsTo`). The neighbour above is a unit `2 ^ e` away, and so is the one below unless the
mantissa is the least one of its exponent, where the units below are half as long. `roundQuotient`
finds the exponent by the numbers of bits and then rounds to a multiple of the unit. This module
says that it gives `m * 2 ^ e` for every quotient of the interval, however the quotient is written
(`roundQuotient_eq`).
-/
import Mathlib.Algebra.Order.Field.Power
import Mathlib.Tactic.Linarith
import Mathlib.Tactic.Positivity
import Mathlib.Tactic.FieldSimp
import Mathlib.Tactic.Ring
import Mathlib.Data.Rat.Cast.Order
import SvgAssets.Number.Binary64

namespace SvgAssets

namespace Binary64

/-! ## Rounding to an integer -/

/-- An integer that is at most a half away is the rounded one; where it is odd it is nearer. -/
theorem roundHalfEven_eq {n d k : Nat} (hd : 0 < d) (hlow : 2 * (k * d) ≤ 2 * n + d)
    (hhigh : 2 * n ≤ 2 * (k * d) + d)
    (hodd : k % 2 = 1 → 2 * (k * d) < 2 * n + d ∧ 2 * n < 2 * (k * d) + d) :
    roundHalfEven n d = k := by
  have hdiv : n / d * d + n % d = n := Nat.div_add_mod' n d
  have hmod : n % d < d := Nat.mod_lt n hd
  unfold roundHalfEven
  dsimp only
  generalize n / d = q at hdiv
  generalize n % d = r at hdiv hmod
  -- The integer is the quotient or the next one.
  have hk : k = q ∨ k = q + 1 := by
    have hge : q ≤ k := by
      by_contra hlt
      have hmul : (k + 1) * d ≤ q * d := Nat.mul_le_mul_right d (by omega)
      rw [Nat.add_mul, Nat.one_mul] at hmul
      omega
    have hle : k ≤ q + 1 := by
      by_contra hlt
      have hmul : (q + 2) * d ≤ k * d := Nat.mul_le_mul_right d (by omega)
      rw [Nat.add_mul] at hmul
      omega
    omega
  rcases hk with rfl | rfl
  · split
    · rfl
    · split <;> omega
  · rw [Nat.add_mul, Nat.one_mul] at hlow hhigh hodd
    split
    · omega
    · split
      · rfl
      · omega

/-! ## Quotients in units of a power of two -/

/-- A quotient divided by a power of two, as a quotient of natural numbers: what `roundQuotient` and
`quotientExponent` divide. -/
theorem exists_scaled (num : Nat) {den : Nat} (hden : 0 < den) (e : Int) :
    ∃ n d : Nat, 0 < d ∧ (n : ℚ) / d = num / den / 2 ^ e ∧
      (if 0 ≤ e then roundHalfEven num (den * 2 ^ e.toNat)
        else roundHalfEven (num * 2 ^ (-e).toNat) den) = roundHalfEven n d ∧
      (if 0 ≤ e then num / (den * 2 ^ e.toNat) else num * 2 ^ (-e).toNat / den) = n / d := by
  by_cases he : 0 ≤ e
  · refine ⟨num, den * 2 ^ e.toNat, by positivity, ?_, if_pos he, if_pos he⟩
    have hpow : (2 : ℚ) ^ e = ((2 ^ e.toNat : Nat) : ℚ) := by
      conv_lhs => rw [← Int.toNat_of_nonneg he]
      rw [zpow_natCast]
      push_cast
      rfl
    rw [hpow, Nat.cast_mul, div_div]
  · refine ⟨num * 2 ^ (-e).toNat, den, hden, ?_, if_neg he, if_neg he⟩
    have hpow : (2 : ℚ) ^ e = ((2 ^ (-e).toNat : Nat) : ℚ)⁻¹ := by
      have hneg : e = -((-e).toNat : Int) := by omega
      conv_lhs => rw [hneg]
      rw [zpow_neg, zpow_natCast]
      push_cast
      rfl
    rw [hpow, Nat.cast_mul, div_inv_eq_mul, div_mul_eq_mul_div]

/-- A quotient is at least a multiple of the unit less a half if so it is for its terms. -/
theorem unit_le_iff {n d k : Nat} (hd : 0 < d) {u : ℚ} (hu : 0 < u) :
    ((k : ℚ) * u ≤ n / d * u + u / 2 ↔ 2 * (k * d) ≤ 2 * n + d) ∧
      ((k : ℚ) * u < n / d * u + u / 2 ↔ 2 * (k * d) < 2 * n + d) := by
  have hdpos : (0 : ℚ) < d := by exact_mod_cast hd
  have hsub : (n : ℚ) / d * u + u / 2 - k * u =
      (((2 * n + d : Nat) : ℚ) - (2 * (k * d) : Nat)) * (u / (2 * d)) := by
    push_cast
    field_simp
  have hfactor : 0 < u / (2 * d) := by positivity
  constructor
  · rw [← sub_nonneg, hsub, mul_nonneg_iff_of_pos_right hfactor, sub_nonneg, Nat.cast_le]
  · rw [← sub_pos, hsub, mul_pos_iff_of_pos_right hfactor, sub_pos, Nat.cast_lt]

/-- A quotient is at most a multiple of the unit and a half if so it is for its terms. -/
theorem le_unit_iff {n d k : Nat} (hd : 0 < d) {u : ℚ} (hu : 0 < u) :
    ((n : ℚ) / d * u ≤ k * u + u / 2 ↔ 2 * n ≤ 2 * (k * d) + d) ∧
      ((n : ℚ) / d * u < k * u + u / 2 ↔ 2 * n < 2 * (k * d) + d) := by
  have hdpos : (0 : ℚ) < d := by exact_mod_cast hd
  have hsub : (k : ℚ) * u + u / 2 - n / d * u =
      (((2 * (k * d) + d : Nat) : ℚ) - (2 * n : Nat)) * (u / (2 * d)) := by
    push_cast
    field_simp
  have hfactor : 0 < u / (2 * d) := by positivity
  constructor
  · rw [← sub_nonneg, hsub, mul_nonneg_iff_of_pos_right hfactor, sub_nonneg, Nat.cast_le]
  · rw [← sub_pos, hsub, mul_pos_iff_of_pos_right hfactor, sub_pos, Nat.cast_lt]

/-- An integer multiple of the unit that is at most half a unit away is the rounded one; where it is
odd it is nearer. -/
theorem roundHalfEven_scaled {num den : Nat} (hden : 0 < den) {e : Int} {k : Nat}
    (hlow : (k : ℚ) * 2 ^ e ≤ num / den + 2 ^ e / 2)
    (hhigh : (num : ℚ) / den ≤ k * 2 ^ e + 2 ^ e / 2)
    (hodd : k % 2 = 1 → (k : ℚ) * 2 ^ e < num / den + 2 ^ e / 2 ∧
      (num : ℚ) / den < k * 2 ^ e + 2 ^ e / 2) :
    (if 0 ≤ e then roundHalfEven num (den * 2 ^ e.toNat)
      else roundHalfEven (num * 2 ^ (-e).toNat) den) = k := by
  obtain ⟨n, d, hd, hq, hround, -⟩ := exists_scaled num hden e
  have hunit : (0 : ℚ) < 2 ^ e := by positivity
  have hdpos : (0 : ℚ) < d := by exact_mod_cast hd
  have hvalue : (num : ℚ) / den = n / d * 2 ^ e := by
    rw [hq, div_mul_cancel₀ _ hunit.ne']
  rw [hvalue] at hlow hhigh hodd
  rw [hround]
  refine roundHalfEven_eq hd ((unit_le_iff hd hunit).1.1 hlow) ((le_unit_iff hd hunit).1.1 hhigh) ?_
  intro h
  obtain ⟨hlow, hhigh⟩ := hodd h
  exact ⟨(unit_le_iff hd hunit).2.1 hlow, (le_unit_iff hd hunit).2.1 hhigh⟩

/-! ## The exponent of a quotient -/

/-- The exponent at which a quotient has 53 bits in front of the point. -/
def bitExponent (num den : Nat) : Int :=
  let e : Int := num.log2 - den.log2 - precision
  let full := if 0 ≤ e then num / (den * 2 ^ e.toNat) else num * 2 ^ (-e).toNat / den
  if full < 2 ^ precision then e else e + 1

theorem quotientExponent_eq (num den : Nat) :
    quotientExponent num den = max (-1074) (bitExponent num den) := rfl

/-- A number of `b + 1` bits lies between two powers of two. -/
theorem log2_bounds {n : Nat} (hn : n ≠ 0) :
    (2 : ℚ) ^ (n.log2 : Int) ≤ n ∧ (n : ℚ) < 2 ^ (n.log2 + 1 : Int) := by
  constructor
  · rw [zpow_natCast]
    exact_mod_cast Nat.log2_self_le hn
  · have hlt : (n : ℚ) < ((2 ^ (n.log2 + 1) : Nat) : ℚ) := by exact_mod_cast Nat.lt_log2_self
    exact_mod_cast hlt

theorem quotient_bounds {num den : Nat} (hnum : num ≠ 0) (hden : 0 < den) :
    (2 : ℚ) ^ ((num.log2 : Int) - den.log2 - 1) < num / den ∧
      (num : ℚ) / den < 2 ^ ((num.log2 : Int) - den.log2 + 1) := by
  obtain ⟨hnumLow, hnumHigh⟩ := log2_bounds hnum
  obtain ⟨hdenLow, hdenHigh⟩ := log2_bounds (Nat.pos_iff_ne_zero.1 hden)
  have hdenPos : (0 : ℚ) < den := by exact_mod_cast hden
  constructor
  · rw [lt_div_iff₀ hdenPos]
    calc (2 : ℚ) ^ ((num.log2 : Int) - den.log2 - 1) * den
        < 2 ^ ((num.log2 : Int) - den.log2 - 1) * 2 ^ (den.log2 + 1 : Int) := by gcongr
      _ = 2 ^ (num.log2 : Int) := by
          rw [← zpow_add₀ (by norm_num)]
          congr 1
          ring
      _ ≤ num := hnumLow
  · rw [div_lt_iff₀ hdenPos]
    calc (num : ℚ) < 2 ^ (num.log2 + 1 : Int) := hnumHigh
      _ = 2 ^ ((num.log2 : Int) - den.log2 + 1) * 2 ^ (den.log2 : Int) := by
          rw [← zpow_add₀ (by norm_num)]
          congr 1
          ring
      _ ≤ 2 ^ ((num.log2 : Int) - den.log2 + 1) * den := by gcongr

/-- At its exponent a quotient has 53 bits in front of the point. -/
theorem bitExponent_spec {num den : Nat} (hnum : num ≠ 0) (hden : 0 < den) :
    (2 : ℚ) ^ (52 + bitExponent num den) ≤ num / den ∧
      (num : ℚ) / den < 2 ^ (53 + bitExponent num den) := by
  obtain ⟨hlow, hhigh⟩ := quotient_bounds hnum hden
  have hprecision : ((precision : Nat) : Int) = 53 := rfl
  generalize he : (num.log2 : Int) - den.log2 - precision = e
  obtain ⟨n, d, hd, hq, -, hfull⟩ := exists_scaled num hden e
  have hbits : n / d < 2 ^ precision ↔ (num : ℚ) / den < 2 ^ (53 + e) := by
    have hunit : (0 : ℚ) < 2 ^ e := by positivity
    have hdpos : (0 : ℚ) < d := by exact_mod_cast hd
    rw [Nat.div_lt_iff_lt_mul hd, zpow_add₀ (by norm_num), ← div_lt_iff₀ hunit, ← hq,
      div_lt_iff₀ hdpos]
    norm_cast
  rw [show bitExponent num den = if n / d < 2 ^ precision then e else e + 1 by
    rw [bitExponent, he, ← hfull]]
  split
  · rename_i hlt
    refine ⟨le_of_lt (lt_of_eq_of_lt ?_ hlow), hbits.1 hlt⟩
    congr 1
    omega
  · rename_i hge
    refine ⟨?_, lt_of_lt_of_eq hhigh ?_⟩
    · rw [show 52 + (e + 1) = 53 + e by ring]
      exact not_lt.1 (mt hbits.2 hge)
    · congr 1
      omega

/-! ## The interval of a number -/

/-- The lower end of the interval of `m * 2 ^ e` in quarters of `2 ^ e`. -/
def lowerQuarters (m : Nat) (e : Int) : Nat :=
  if m = 2 ^ (precision - 1) ∧ -1074 < e then 4 * m - 1 else 4 * m - 2

/-- A rational lies in the interval that rounds to `m * 2 ^ e`. Its ends belong to it where the
mantissa is even. -/
def RoundsTo (m : Nat) (e : Int) (q : ℚ) : Prop :=
  if m % 2 = 0 then
    (lowerQuarters m e : ℚ) * 2 ^ (e - 2) ≤ q ∧ q ≤ ((4 * m + 2 : Nat) : ℚ) * 2 ^ (e - 2)
  else (lowerQuarters m e : ℚ) * 2 ^ (e - 2) < q ∧ q < ((4 * m + 2 : Nat) : ℚ) * 2 ^ (e - 2)

theorem RoundsTo.le {m : Nat} {e : Int} {q : ℚ} (h : RoundsTo m e q) :
    (lowerQuarters m e : ℚ) * 2 ^ (e - 2) ≤ q ∧ q ≤ ((4 * m + 2 : Nat) : ℚ) * 2 ^ (e - 2) := by
  unfold RoundsTo at h
  split at h
  · exact h
  · exact ⟨h.1.le, h.2.le⟩

theorem RoundsTo.lt {m : Nat} {e : Int} {q : ℚ} (h : RoundsTo m e q) (hodd : m % 2 = 1) :
    (lowerQuarters m e : ℚ) * 2 ^ (e - 2) < q ∧ q < ((4 * m + 2 : Nat) : ℚ) * 2 ^ (e - 2) := by
  rwa [RoundsTo, if_neg (by omega)] at h

theorem le_lowerQuarters (m : Nat) (e : Int) : 4 * m ≤ lowerQuarters m e + 2 := by
  unfold lowerQuarters
  split <;> omega

theorem lowerQuarters_pos {m : Nat} (hm : 0 < m) (e : Int) : 0 < lowerQuarters m e := by
  unfold lowerQuarters
  split <;> omega

/-! ## Rounding inside the interval -/

theorem ofMantissa_eq (negative : Bool) {m : Nat} {e : Int} (h : Canonical m e) :
    ofMantissa negative m e = .finite negative m e h := by
  have hm : m ≠ 2 ^ precision := h.1.ne
  simp only [ofMantissa, if_neg hm, dif_pos h]

theorem ofMantissa_carry (negative : Bool) {e : Int} (h : Canonical (2 ^ (precision - 1)) (e + 1)) :
    ofMantissa negative (2 ^ precision) e = .finite negative (2 ^ (precision - 1)) (e + 1) h := by
  simp only [ofMantissa, if_true, dif_pos h]

/-- Powers of two near `2 ^ e` in quarters of it. -/
theorem pow_quarters (k : Nat) (e : Int) :
    (2 : ℚ) ^ ((k : Int) + e) = ((2 ^ (k + 2) : Nat) : ℚ) * 2 ^ (e - 2) := by
  have hcast : ((2 ^ (k + 2) : Nat) : ℚ) = 2 ^ ((k : Int) + 2) := by
    push_cast
    exact (zpow_natCast 2 (k + 2)).symm
  rw [hcast, ← zpow_add₀ (by norm_num)]
  congr 1
  ring

/-- A quotient is rounded to an integer multiple of `2 ^ e` that is at most a half away, where `e`
is its exponent. -/
theorem roundQuotient_eq_ofMantissa (negative : Bool) {num den : Nat} (hnum : num ≠ 0)
    (hden : 0 < den) {e : Int} (he : quotientExponent num den = e) {k : Nat}
    (hlow : (k : ℚ) * 2 ^ e ≤ num / den + 2 ^ e / 2)
    (hhigh : (num : ℚ) / den ≤ k * 2 ^ e + 2 ^ e / 2)
    (hodd : k % 2 = 1 → (k : ℚ) * 2 ^ e < num / den + 2 ^ e / 2 ∧
      (num : ℚ) / den < k * 2 ^ e + 2 ^ e / 2) :
    roundQuotient negative num den = ofMantissa negative k e := by
  rw [roundQuotient, if_neg hnum]
  dsimp only
  rw [he, roundHalfEven_scaled hden hlow hhigh hodd]

/-- The exponent of a quotient of the interval is that of the number, except below a power of two,
where it is the one before. -/
theorem quotientExponent_cases_of_roundsTo {m : Nat} {e : Int} (h : Canonical m e) {num den : Nat}
    (hnum : num ≠ 0) (hden : 0 < den) (hq : RoundsTo m e (num / den)) :
    quotientExponent num den = e ∨
      quotientExponent num den = e - 1 ∧ m = 2 ^ (precision - 1) ∧ -1074 < e ∧
        (num : ℚ) / den < ((2 ^ 54 : Nat) : ℚ) * 2 ^ (e - 2) := by
  obtain ⟨hm, hleast, -, hfull⟩ := h
  obtain ⟨hlow, hhigh⟩ := hq.le
  obtain ⟨hbits, hbits'⟩ := bitExponent_spec hnum hden
  have hquarter : (0 : ℚ) < 2 ^ (e - 2) := by positivity
  have htwo : (1 : ℚ) < 2 := by norm_num
  have h52 : (2 : ℚ) ^ (52 + e) = ((2 ^ 54 : Nat) : ℚ) * 2 ^ (e - 2) := pow_quarters 52 e
  have h53 : (2 : ℚ) ^ (53 + e) = ((2 ^ 55 : Nat) : ℚ) * 2 ^ (e - 2) := pow_quarters 53 e
  rw [quotientExponent_eq]
  generalize bitExponent num den = b at hbits hbits' ⊢
  -- The quotient has at most as many bits as the mantissa has room for.
  have hle : b ≤ e := by
    have hroom : (num : ℚ) / den < 2 ^ (53 + e) := by
      refine lt_of_le_of_lt hhigh ?_
      rw [h53, mul_lt_mul_iff_left₀ hquarter, Nat.cast_lt]
      have : m < 2 ^ 53 := hm
      omega
    have := (zpow_lt_zpow_iff_right₀ htwo).1 (lt_of_le_of_lt hbits hroom)
    omega
  by_cases hpower : (2 : ℚ) ^ (52 + e) ≤ num / den
  · have := (zpow_lt_zpow_iff_right₀ htwo).1 (lt_of_le_of_lt hpower hbits')
    left
    omega
  rw [not_le, h52] at hpower
  by_cases heq : e = -1074
  · left
    omega
  -- Only a quotient below a power of two has fewer bits.
  have hquarters : lowerQuarters m e < 2 ^ 54 := by
    have hlt := lt_of_le_of_lt hlow hpower
    rwa [mul_lt_mul_iff_left₀ hquarter, Nat.cast_lt] at hlt
  have hmin : m = 2 ^ (precision - 1) ∧ -1074 < e := by
    by_contra hnot
    rw [lowerQuarters, if_neg hnot] at hquarters
    have hge : 2 ^ 52 ≤ m := hfull.resolve_right heq
    have hne : m ≠ 2 ^ 52 := fun hm => hnot ⟨hm, by omega⟩
    omega
  have h51 : (2 : ℚ) ^ (51 + e) < num / den := by
    refine lt_of_lt_of_le ?_ hlow
    rw [show (2 : ℚ) ^ (51 + e) = ((2 ^ 53 : Nat) : ℚ) * 2 ^ (e - 2) from pow_quarters 51 e,
      mul_lt_mul_iff_left₀ hquarter, Nat.cast_lt, lowerQuarters, if_pos hmin, hmin.1]
    decide
  have := (zpow_lt_zpow_iff_right₀ htwo).1 (lt_trans h51 hbits')
  by_cases hb : b = e
  · left
    omega
  · exact .inr ⟨by omega, hmin.1, hmin.2, hpower⟩

/-- **Rounding to a number.** A quotient of the interval of a number is rounded to that number. -/
theorem roundQuotient_eq (negative : Bool) {m : Nat} {e : Int} (h : Canonical m e) (hm : 0 < m)
    {num den : Nat} (hden : 0 < den) (hq : RoundsTo m e (num / den)) :
    roundQuotient negative num den = .finite negative m e h := by
  obtain ⟨hlow, hhigh⟩ := hq.le
  have hquarter : (0 : ℚ) < 2 ^ (e - 2) := by positivity
  have hnum : num ≠ 0 := by
    rintro rfl
    have hpos : (0 : ℚ) < lowerQuarters m e := by exact_mod_cast lowerQuarters_pos hm e
    rw [Nat.cast_zero, zero_div] at hlow
    exact absurd hlow (not_le.2 (mul_pos hpos hquarter))
  rcases quotientExponent_cases_of_roundsTo h hnum hden hq with he | ⟨he, rfl, hleast, hpower⟩
  · have hunit : (2 : ℚ) ^ e = 4 * 2 ^ (e - 2) := by
      rw [zpow_sub₀ (by norm_num)]
      norm_num
      ring
    have hends : (4 * m : ℚ) * 2 ^ (e - 2) ≤ (lowerQuarters m e + 2) * 2 ^ (e - 2) := by
      gcongr
      exact_mod_cast le_lowerQuarters m e
    rw [roundQuotient_eq_ofMantissa negative hnum hden he (k := m), ofMantissa_eq negative h]
    · rw [hunit]
      linarith
    · rw [hunit]
      push_cast at hhigh
      linarith
    · intro hodd
      obtain ⟨hlow, hhigh⟩ := hq.lt hodd
      push_cast at hhigh
      rw [hunit]
      constructor <;> linarith
  · -- Below the power of two the quotient is rounded to a mantissa of 54 bits.
    obtain ⟨f, rfl⟩ : ∃ f, e = f + 1 := ⟨e - 1, by omega⟩
    rw [add_sub_cancel_right] at he
    have hunit : (2 : ℚ) ^ f = 2 * 2 ^ (f + 1 - 2) := by
      rw [show f + 1 - 2 = f - 1 by ring, zpow_sub₀ (by norm_num)]
      norm_num
      ring
    have hquarters : lowerQuarters (2 ^ (precision - 1)) (f + 1) = 2 ^ 54 - 1 := by
      rw [lowerQuarters, if_pos ⟨rfl, hleast⟩]
      rfl
    have hcarry : (2 : ℚ) * ((2 ^ precision : Nat) : ℚ) = ((2 ^ 54 : Nat) : ℚ) := by norm_num
    have hlower : ((2 ^ 54 - 1 : Nat) : ℚ) = ((2 ^ 54 : Nat) : ℚ) - 1 := by norm_num
    rw [hquarters, hlower, sub_mul, one_mul] at hlow
    have hmantissa (w : ℚ) : ((2 ^ precision : Nat) : ℚ) * (2 * w) = ((2 ^ 54 : Nat) : ℚ) * w := by
      rw [← hcarry]
      ring
    rw [roundQuotient_eq_ofMantissa negative hnum hden he (k := 2 ^ precision),
      ofMantissa_carry negative h]
    · rw [hunit, hmantissa]
      linarith
    · rw [hunit, hmantissa]
      linarith
    · exact fun hodd => absurd hodd (by decide)

end Binary64

end SvgAssets
