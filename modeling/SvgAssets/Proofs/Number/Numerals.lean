/-
# SvgAssets.Proofs.Number.Numerals -- the number that a numeral stands for

A numeral stands for a rational, its digits scaled by a power of ten. It is read as the number that
this rational rounds to, however its digits are distributed around the point and the exponent
(`Numeral.toBinary64_eq`): the powers of ten that are never computed are far outside of the range of
the numbers.
-/
import SvgAssets.Number.Reading
import SvgAssets.Proofs.Number.Rounding

namespace SvgAssets

namespace Text

/-! ## Digits -/

@[simp] theorem decimalValue_nil : decimalValue [] = 0 := rfl

theorem foldl_decimal (ds : List Nat) (n : Nat) :
    ds.foldl (fun n d => 10 * n + d) n = n * 10 ^ ds.length + decimalValue ds := by
  induction ds generalizing n with
  | nil => simp
  | cons d ds ih =>
    rw [decimalValue, List.foldl_cons, List.foldl_cons, ih (10 * n + d), ih (10 * 0 + d),
      List.length_cons, Nat.pow_succ]
    ring

theorem decimalValue_append (ds es : List Nat) :
    decimalValue (ds ++ es) = decimalValue ds * 10 ^ es.length + decimalValue es := by
  rw [decimalValue, List.foldl_append]
  exact foldl_decimal es _

theorem decimalValue_cons (d : Nat) (ds : List Nat) :
    decimalValue (d :: ds) = d * 10 ^ ds.length + decimalValue ds := by
  have h := decimalValue_append [d] ds
  simpa [decimalValue] using h

@[simp] theorem decimalValue_replicate_zero (n : Nat) : decimalValue (List.replicate n 0) = 0 := by
  induction n with
  | zero => rfl
  | succ n ih => rw [List.replicate_succ, decimalValue_cons, ih, Nat.zero_mul]

theorem decimalValue_replicate_zero_append (n : Nat) (ds : List Nat) :
    decimalValue (List.replicate n 0 ++ ds) = decimalValue ds := by
  rw [decimalValue_append, decimalValue_replicate_zero, Nat.zero_mul, Nat.zero_add]

theorem decimalValue_dropWhile_zero (ds : List Nat) :
    decimalValue (ds.dropWhile (· == 0)) = decimalValue ds := by
  induction ds with
  | nil => rfl
  | cons d ds ih =>
    cases d with
    | zero => simpa [decimalValue_cons] using ih
    | succ d => rfl

theorem decimalValue_lt {ds : List Nat} (h : ∀ d ∈ ds, d < 10) :
    decimalValue ds < 10 ^ ds.length := by
  induction ds with
  | nil => simp
  | cons d ds ih =>
    rw [List.forall_mem_cons] at h
    have hbehind := ih h.2
    have hfirst : (d + 1) * 10 ^ ds.length ≤ 10 * 10 ^ ds.length := Nat.mul_le_mul_right _ h.1
    rw [decimalValue_cons, List.length_cons, Nat.pow_succ]
    rw [Nat.add_mul] at hfirst
    omega

/-- Digits of which the first is not zero are worth at least its place. -/
theorem le_decimalValue {d : Nat} (hd : d ≠ 0) (ds : List Nat) :
    10 ^ ds.length ≤ decimalValue (d :: ds) := by
  rw [decimalValue_cons]
  have := Nat.mul_le_mul_right (10 ^ ds.length) (Nat.pos_of_ne_zero hd)
  omega

end Text

namespace Numeral

open Text Binary64

/-- The absolute value of a numeral. -/
def magnitude (n : Numeral) : ℚ := (decimalValue (n.whole ++ n.fraction) : ℚ) * 10 ^ n.scale

/-- The digits of a numeral are decimal digits. -/
def IsDecimal (n : Numeral) : Prop := ∀ d ∈ n.whole ++ n.fraction, d < 10

/-- The digits of a numeral from the first one that is not zero on. -/
def significant (n : Numeral) : List Nat := (n.whole ++ n.fraction).dropWhile (· == 0)

theorem magnitude_eq (n : Numeral) :
    n.magnitude = (decimalValue n.significant : ℚ) * 10 ^ n.scale := by
  rw [magnitude, significant, decimalValue_dropWhile_zero]

/-- The place of the first digit tells the size of a numeral. -/
theorem magnitude_bounds {n : Numeral} (h : n.IsDecimal) (hne : n.significant ≠ []) :
    (10 : ℚ) ^ ((n.significant.length : Int) + n.scale - 1) ≤ n.magnitude ∧
      n.magnitude < 10 ^ ((n.significant.length : Int) + n.scale) := by
  have hten : (10 : ℚ) ≠ 0 := by norm_num
  have hscale : (0 : ℚ) < 10 ^ n.scale := by positivity
  rw [magnitude_eq]
  constructor
  · obtain ⟨d, ds, hcons⟩ := List.exists_cons_of_ne_nil hne
    have hd : d ≠ 0 := by
      have hhead := List.head?_dropWhile_not (· == 0) (n.whole ++ n.fraction)
      rw [← significant, hcons] at hhead
      simpa using hhead
    rw [hcons, add_sub_right_comm, zpow_add₀ hten, List.length_cons]
    have hle : ((10 ^ ds.length : Nat) : ℚ) ≤ decimalValue (d :: ds) := by
      exact_mod_cast le_decimalValue hd ds
    push_cast at hle ⊢
    rw [add_sub_cancel_right, zpow_natCast]
    gcongr
  · have hlt : decimalValue n.significant < 10 ^ n.significant.length :=
      decimalValue_lt fun d hd => h d (List.dropWhile_subset _ hd)
    have hlt' : (decimalValue n.significant : ℚ) < ((10 ^ n.significant.length : Nat) : ℚ) := by
      exact_mod_cast hlt
    rw [zpow_add₀ hten, zpow_natCast]
    push_cast at hlt'
    gcongr

theorem pow_two_lt_pow_ten : (2 : ℚ) ^ (1024 : Int) < 10 ^ (400 : Int) := by
  have hpow : (2 : ℚ) ^ 1024 < 10 ^ 400 := by
    exact_mod_cast (by decide +kernel : 2 ^ 1024 < 10 ^ 400)
  exact_mod_cast hpow

theorem pow_ten_lt_pow_two : (10 : ℚ) ^ (-401 : Int) < 2 ^ (-1076 : Int) := by
  rw [zpow_neg, zpow_neg]
  refine inv_strictAnti₀ (by positivity) ?_
  have hpow : (2 : ℚ) ^ 1076 < 10 ^ 401 := by
    exact_mod_cast (by decide +kernel : 2 ^ 1076 < 10 ^ 401)
  exact_mod_cast hpow

/-- Rationals that round to a number are far from the powers of ten that are never computed. -/
theorem range_of_roundsTo {m : Nat} {e : Int} {q : ℚ} (h : Canonical m e) (hm : 0 < m)
    (hq : RoundsTo m e q) : (10 : ℚ) ^ (-401 : Int) < q ∧ q < 10 ^ (400 : Int) := by
  obtain ⟨hroom, hleast, hgreatest, -⟩ := h
  obtain ⟨hlow, hhigh⟩ := hq.le
  have hone : (1 : ℚ) ≤ 2 := by norm_num
  have hquarter : (0 : ℚ) < 2 ^ (e - 2) := by positivity
  constructor
  · have hpos : (1 : ℚ) ≤ lowerQuarters m e := by exact_mod_cast lowerQuarters_pos hm e
    calc (10 : ℚ) ^ (-401 : Int) < 2 ^ (-1076 : Int) := pow_ten_lt_pow_two
      _ ≤ 2 ^ (e - 2) := zpow_le_zpow_right₀ hone (by omega)
      _ ≤ lowerQuarters m e * 2 ^ (e - 2) := le_mul_of_one_le_left hquarter.le hpos
      _ ≤ q := hlow
  · have hbits : ((4 * m + 2 : Nat) : ℚ) ≤ 2 ^ (55 : Int) := by
      have hle : 4 * m + 2 ≤ 2 ^ 55 := by
        have : m < 2 ^ 53 := hroom
        omega
      exact_mod_cast hle
    calc q ≤ ((4 * m + 2 : Nat) : ℚ) * 2 ^ (e - 2) := hhigh
      _ ≤ 2 ^ (55 : Int) * 2 ^ (971 - 2 : Int) := by gcongr
      _ = 2 ^ (1024 : Int) := by
          rw [← zpow_add₀ (by norm_num)]
          norm_num
      _ < 10 ^ (400 : Int) := pow_two_lt_pow_ten

/-- **Reading a number.** A numeral that stands for a rational of the interval of a number is read
as that number. -/
theorem toBinary64_eq {n : Numeral} (hn : n.IsDecimal) {m : Nat} {e : Int} (h : Canonical m e)
    (hm : 0 < m) (hq : RoundsTo m e n.magnitude) :
    n.toBinary64 = .finite n.negative m e h := by
  obtain ⟨hlow, hhigh⟩ := range_of_roundsTo h hm hq
  have hten : (1 : ℚ) < 10 := by norm_num
  have hvalue : decimalValue n.significant ≠ 0 := by
    intro hzero
    rw [magnitude_eq, hzero, Nat.cast_zero, zero_mul] at hlow
    exact absurd hlow (not_lt.2 (by positivity))
  have hne : n.significant ≠ [] := by
    intro hnil
    rw [hnil] at hvalue
    exact hvalue rfl
  obtain ⟨hfirst, hfirst'⟩ := magnitude_bounds hn hne
  have hgreat := (zpow_lt_zpow_iff_right₀ hten).1 (lt_of_le_of_lt hfirst hhigh)
  have hsmall := (zpow_lt_zpow_iff_right₀ hten).1 (lt_trans hlow hfirst')
  unfold toBinary64
  rw [← significant]
  dsimp only
  rw [if_neg hvalue, if_neg (by omega), if_neg (by omega)]
  rw [magnitude_eq] at hq
  split
  · rename_i hscale
    refine roundQuotient_eq n.negative h hm Nat.one_pos ?_
    convert hq using 1
    conv_rhs => rw [← Int.toNat_of_nonneg hscale, zpow_natCast]
    push_cast
    rw [div_one]
  · rename_i hscale
    refine roundQuotient_eq n.negative h hm (by positivity) ?_
    have hneg : n.scale = -((-n.scale).toNat : Int) := by omega
    convert hq using 1
    conv_rhs => rw [hneg, zpow_neg, zpow_natCast]
    push_cast
    rw [div_eq_mul_inv]

end Numeral

end SvgAssets
