/-
# SvgAssets.Number.Scaling -- a uniform number times a bound

A number is drawn below a bound by taking `u / 2 ^ 53` for a random `u` of 53 bits, multiplying it
with the bound in binary64 and cutting off behind the point. The exact product is below the bound,
but the multiplication rounds, and the largest `u` come so close that rounding up to the bound
itself has to be excluded: at the exponent of the product a bound has more than 52 bits, so that the
product stays away from it by more than half of a unit (`wholePart_roundQuotient_lt`).
-/
import SvgAssets.Number.Binary64

namespace SvgAssets

namespace Binary64

/-- Rounding to an integer goes up by at most a half. -/
theorem roundHalfEven_mul_le (n d : Nat) : 2 * (roundHalfEven n d * d) ≤ 2 * n + d := by
  have hdiv : d * (n / d) + n % d = n := Nat.div_add_mod n d
  have hq : n / d * d = d * (n / d) := Nat.mul_comm ..
  have hone : (n / d + 1) * d = d * (n / d) + d := by rw [Nat.add_mul, Nat.one_mul, hq]
  unfold roundHalfEven
  dsimp only
  split
  · omega
  · split
    · omega
    · have hparity : n / d % 2 = 0 ∨ n / d % 2 = 1 := by omega
      rcases hparity with h | h
      · rw [h, Nat.add_zero]; omega
      · rw [h]; omega

/-- The integer part of a number that is not negative, and zero if it has none. -/
def wholePart (x : Binary64) : Nat := (x.floor?.getD 0).toNat

theorem wholePart_finite (m k : Nat) (h : Canonical m (-(k : Int))) :
    (finite false m (-(k : Int)) h).wholePart = m / 2 ^ k := by
  have hfloor : (finite false m (-(k : Int)) h).wholePart =
      (quotient m (-(k : Int))).1 / (quotient m (-(k : Int))).2 := by
    show (Int.fdiv ((quotient m _).1 : Int) ((quotient m _).2 : Int)).toNat = _
    rw [← Int.ofNat_fdiv]
    rfl
  rw [hfloor]
  cases k with
  | zero => simp [quotient]
  | succ k =>
    have hneg : ¬ 0 ≤ -((k + 1 : Nat) : Int) := by omega
    rw [quotient, if_neg hneg, Int.neg_neg, Int.toNat_natCast]

/-- A mantissa that rounding has brought to 54 bits stands for the same number at the next
exponent. -/
theorem wholePart_ofMantissa_le (m k : Nat) :
    (ofMantissa false m (-((k + 1 : Nat) : Int))).wholePart ≤ m / 2 ^ (k + 1) := by
  unfold ofMantissa
  by_cases hm : m = 2 ^ precision
  · -- The mantissa moves by one place, and the exponent with it.
    have he : -((k + 1 : Nat) : Int) + 1 = -(k : Int) := by omega
    have hquotient : m / 2 ^ (k + 1) = 2 ^ (precision - 1) / 2 ^ k := by
      have hp : 2 ^ precision = 2 ^ (precision - 1) * 2 := rfl
      rw [hm, hp, Nat.pow_succ, Nat.mul_div_mul_right _ _ (by decide)]
    rw [if_pos hm, he, hquotient]
    dsimp only
    split
    · exact Nat.le_of_eq (wholePart_finite ..)
    · exact Nat.zero_le _
  · rw [if_neg hm]
    dsimp only
    split
    · exact Nat.le_of_eq (wholePart_finite ..)
    · exact Nat.zero_le _

/-- The exponent of a quotient is settled by the numbers of bits, up to one. -/
theorem quotientExponent_cases (num den : Nat) {e : Int}
    (he : num.log2 - den.log2 - precision = e) (hleast : -1074 ≤ e) :
    quotientExponent num den = e ∨ quotientExponent num den = e + 1 := by
  unfold quotientExponent
  rw [he]
  dsimp only
  split
  · split
    · exact .inl (Int.max_eq_right hleast)
    · exact .inr (Int.max_eq_right (by omega))
  · split
    · exact .inl (Int.max_eq_right hleast)
    · exact .inr (Int.max_eq_right (by omega))

/-- A product that is scaled has a negative exponent, and there the bound has more than 52 bits. -/
theorem exists_quotientExponent_eq {num bound : Nat} (hnum : num ≠ 0)
    (hlt : num < 2 ^ precision * bound) (hbound : bound < 2 ^ (precision - 1)) :
    ∃ k : Nat, quotientExponent num (2 ^ precision) = -((k + 1 : Nat) : Int) ∧
      2 ^ (precision - 1) < bound * 2 ^ (k + 1) := by
  have hpos : 0 < bound := by
    rcases Nat.eq_zero_or_pos bound with rfl | hpos
    · omega
    · exact hpos
  have hlog : num.log2 < 2 * precision - 1 := by
    rw [Nat.log2_lt hnum]
    have hmul : 2 ^ precision * bound ≤ 2 ^ precision * 2 ^ (precision - 1) :=
      Nat.mul_le_mul_left _ (Nat.le_of_lt hbound)
    exact Nat.lt_of_lt_of_le hlt hmul
  -- At the least exponent to be considered the bound has more than 53 bits.
  have hbits : 2 ^ precision < bound * 2 ^ (2 * precision - num.log2) := by
    have hfirst : 2 ^ num.log2 < 2 ^ precision * bound :=
      Nat.lt_of_le_of_lt (Nat.log2_self_le hnum) hlt
    have hscaled := Nat.mul_lt_mul_of_pos_right hfirst
      (Nat.two_pow_pos (2 * precision - num.log2))
    rw [← Nat.pow_add, Nat.mul_assoc, Nat.add_sub_cancel' (by omega), Nat.two_mul, Nat.pow_add]
      at hscaled
    exact Nat.lt_of_mul_lt_mul_left hscaled
  have hden : (2 ^ precision).log2 = precision := Nat.log2_two_pow
  obtain ⟨k, hk⟩ : ∃ k, 2 * precision - num.log2 = k + 2 :=
    ⟨2 * precision - num.log2 - 2, by omega⟩
  rw [hk] at hbits
  have hprecision : precision = 53 := rfl
  rcases quotientExponent_cases num (2 ^ precision) (e := -((k + 2 : Nat) : Int)) (by omega)
    (by omega) with he | he
  · refine ⟨k + 1, he, Nat.lt_trans ?_ hbits⟩
    exact Nat.pow_lt_pow_right (by decide) (by decide)
  · refine ⟨k, by omega, ?_⟩
    rw [Nat.pow_succ 2 (k + 1), ← Nat.mul_assoc] at hbits
    exact Nat.lt_of_mul_lt_mul_right (a := 2) hbits

/-- **Scaling stays below the bound.** The product of a bound and a number below one with 53 bits,
as rounded, has an integer part below the bound. -/
theorem wholePart_roundQuotient_lt {u bound : Nat} (hu : u < 2 ^ precision) (hpos : 0 < bound)
    (hbound : bound < 2 ^ (precision - 1)) :
    (roundQuotient false (u * bound) (2 ^ precision)).wholePart < bound := by
  unfold roundQuotient
  split
  · exact hpos
  · rename_i hne
    have hnum : u * bound < 2 ^ precision * bound := Nat.mul_lt_mul_of_pos_right hu hpos
    obtain ⟨k, hk, hbits⟩ := exists_quotientExponent_eq hne hnum hbound
    have hneg : ¬ 0 ≤ -((k + 1 : Nat) : Int) := by omega
    dsimp only
    rw [hk, if_neg hneg, Int.neg_neg, Int.toNat_natCast]
    refine Nat.lt_of_le_of_lt (wholePart_ofMantissa_le _ _) ?_
    rw [Nat.div_lt_iff_lt_mul (Nat.two_pow_pos _)]
    have hround := roundHalfEven_mul_le (u * bound * 2 ^ (k + 1)) (2 ^ precision)
    generalize hN : bound * 2 ^ (k + 1) = N at hbits ⊢
    rw [Nat.mul_assoc, hN] at hround ⊢
    generalize roundHalfEven (u * N) (2 ^ precision) = m at hround ⊢
    -- The product lies below `N` by more than a half.
    have hproduct : u * N + N ≤ 2 ^ precision * N := by
      rw [← Nat.succ_mul]
      exact Nat.mul_le_mul_right N hu
    have htwo : 2 ^ precision = 2 * 2 ^ (precision - 1) := rfl
    rw [Nat.mul_comm (2 ^ precision) N] at hproduct
    refine Nat.lt_of_mul_lt_mul_right (a := 2 ^ precision) ?_
    omega

end Binary64

end SvgAssets
