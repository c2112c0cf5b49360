/-
# SvgAssets.Proofs.Number.ShortestDigits -- the shortest digits stand for the number

The search for the shortest digits ends at the latest with seventeen digits: their grid is finer
than the interval of the number, and so one of the two neighbours on the grid lies inside. Whatever
is found lies inside of the interval (`shortestDigits_spec`), and taking off zeros at the end does
not change what the digits are worth.
-/
import Mathlib.Data.List.DropRight
import SvgAssets.Number.Shortest
import SvgAssets.Proofs.Number.Numerals

namespace SvgAssets

namespace Text

/-! ## Digits of natural numbers -/

/-- The values of decimal digits in ASCII. -/
def digitValues (s : Text) : List Nat := s.map fun c => c.toNat - '0'.toNat

@[simp] theorem length_digitValues (s : Text) : (digitValues s).length = s.length :=
  List.length_map _

@[simp] theorem digitValues_append (s t : Text) :
    digitValues (s ++ t) = digitValues s ++ digitValues t := List.map_append

@[simp] theorem digitValues_replicate_zero (n : Nat) :
    digitValues (List.replicate n '0') = List.replicate n 0 := List.map_replicate

theorem decimalValue_digitValues_toDigits (n : Nat) :
    decimalValue (digitValues (Nat.toDigits 10 n)) = n := by
  have hread := Nat.ofDigitChars_toDigits (b := 10) (n := n) (by decide) (by decide)
  rw [digitValues, decimalValue, List.foldl_map]
  exact hread

theorem isDigit_bounds {c : Char} (h : c.isDigit = true) : 48 ≤ c.toNat ∧ c.toNat ≤ 57 := by
  simp only [Char.isDigit, Bool.and_eq_true, decide_eq_true_eq] at h
  exact ⟨UInt32.le_iff_toNat_le.1 h.1, UInt32.le_iff_toNat_le.1 h.2⟩

theorem digitValues_lt {s : Text} (h : ∀ c ∈ s, c.isDigit = true) :
    ∀ d ∈ digitValues s, d < 10 := by
  intro d hd
  obtain ⟨c, hc, rfl⟩ := List.mem_map.1 hd
  have hbounds := isDigit_bounds (h c hc)
  have hzero : '0'.toNat = 48 := rfl
  omega

theorem isDigit_toDigits (n : Nat) : ∀ c ∈ Nat.toDigits 10 n, c.isDigit = true :=
  fun _ => Nat.isDigit_of_mem_toDigits (by decide) (by decide)

/-- A positive number has its first digit at the place that its size tells. -/
theorem toDigits_bounds {n : Nat} (hn : 0 < n) :
    10 ^ ((Nat.toDigits 10 n).length - 1) ≤ n ∧ n < 10 ^ (Nat.toDigits 10 n).length := by
  have hlength : 0 < (Nat.toDigits 10 n).length := Nat.length_toDigits_pos
  refine ⟨?_, (Nat.length_toDigits_le_iff (by decide) hlength).1 (Nat.le_refl _)⟩
  rcases Nat.eq_or_lt_of_le (Nat.succ_le_of_lt hlength) with h | h
  · rw [← h]
    exact hn
  · have hnot := mt (Nat.length_toDigits_le_iff (b := 10) (n := n) (by decide)
      (Nat.sub_pos_of_lt h)).2 (by omega)
    exact Nat.le_of_not_lt hnot

/-- The first digit of a positive number is not zero. -/
theorem head?_toDigits {n : Nat} (hn : 0 < n) : (Nat.toDigits 10 n).head? ≠ some '0' := by
  intro hhead
  cases hdigits : Nat.toDigits 10 n with
  | nil => exact Nat.toDigits_ne_nil hdigits
  | cons c s =>
    rw [hdigits] at hhead
    cases hhead
    have hvalue := decimalValue_digitValues_toDigits n
    have hdigit := isDigit_toDigits n
    have hlow := (toDigits_bounds hn).1
    rw [hdigits] at hvalue hdigit hlow
    have hlt := decimalValue_lt (digitValues_lt fun c hc => hdigit c (List.mem_cons_of_mem _ hc))
    rw [digitValues, List.map_cons, decimalValue_cons, Nat.sub_self, Nat.zero_mul, Nat.zero_add,
      ← digitValues] at hvalue
    rw [digitValues, List.length_map, ← digitValues, hvalue] at hlt
    rw [List.length_cons, Nat.add_sub_cancel] at hlow
    omega

/-- Text is what is left of it without a run at its end, and the run. -/
theorem exists_dropEndWhile_append (a : Char) (s : Text) :
    ∃ n, dropEndWhile (· == a) s ++ List.replicate n a = s := by
  have hrun : s.rtakeWhile (· == a) = List.replicate (s.rtakeWhile (· == a)).length a :=
    List.eq_replicate_of_mem fun c hc => by simpa using List.mem_rtakeWhile_imp hc
  refine ⟨(s.rtakeWhile (· == a)).length, ?_⟩
  rw [← hrun]
  exact List.rdropWhile_append_rtakeWhile

end Text

namespace Binary64

open Text

/-! ## The decimal point -/

/-- A power of an integer as a quotient of natural numbers. -/
theorem zpow_eq_div {b : Nat} (hb : 0 < b) (z : Int) :
    (b : ℚ) ^ z = ((b ^ z.toNat : Nat) : ℚ) / ((b ^ (-z).toNat : Nat) : ℚ) := by
  have hne : (b : ℚ) ≠ 0 := by exact_mod_cast hb.ne'
  push_cast
  rw [← zpow_natCast, ← zpow_natCast, ← zpow_sub₀ hne]
  congr 1
  omega

/-- Above the depth of the decimals a quotient is at least the power of ten below its point. -/
theorem pow_decimalPoint_le {num den : Nat} (hden : 0 < den)
    (hdepth : (1 : ℚ) ≤ num / den * 10 ^ decimalDepth) :
    (10 : ℚ) ^ (decimalPoint num den - 1) ≤ num / den := by
  have hdenPos : (0 : ℚ) < den := by exact_mod_cast hden
  have hpos : 0 < num * 10 ^ decimalDepth / den := by
    refine Nat.div_pos ?_ hden
    rw [div_mul_eq_mul_div, le_div_iff₀ hdenPos, one_mul] at hdepth
    exact_mod_cast hdepth
  have hfirst := (toDigits_bounds hpos).1
  have hlength : 0 < (Nat.toDigits 10 (num * 10 ^ decimalDepth / den)).length :=
    Nat.length_toDigits_pos
  unfold decimalPoint
  generalize (Nat.toDigits 10 (num * 10 ^ decimalDepth / den)).length = L at hfirst hlength ⊢
  have hexponent : (L : Int) - decimalDepth - 1 = ((L - 1 : Nat) : Int) - (decimalDepth : Nat) := by
    omega
  rw [hexponent, zpow_sub₀ (by norm_num), zpow_natCast, zpow_natCast, div_le_iff₀ (by positivity),
    div_mul_eq_mul_div, le_div_iff₀ hdenPos]
  rw [Nat.le_div_iff_mul_le hden] at hfirst
  exact_mod_cast hfirst

/-! ## One grid of decimals -/

/-- The spacing of a grid and a quarter of the unit have the integers of `nearestOnGrid?` as their
ratio. -/
theorem exists_grid_scale (e k : Int) (n : Nat) :
    ∃ w : ℚ, 0 < w ∧ (2 : ℚ) ^ (e - 2) = ((10 ^ (n - k).toNat * 2 ^ (e - 2).toNat : Nat) : ℚ) * w ∧
      (10 : ℚ) ^ (k - n) = ((10 ^ (k - n).toNat * 2 ^ (2 - e).toNat : Nat) : ℚ) * w := by
  have htwo := zpow_eq_div (b := 2) (by decide) (e - 2)
  have hten := zpow_eq_div (b := 10) (by decide) (k - n)
  rw [neg_sub] at htwo hten
  refine ⟨1 / ((10 ^ ((n : Int) - k).toNat * 2 ^ (2 - e).toNat : Nat) : ℚ), by positivity, ?_, ?_⟩
  · push_cast at htwo ⊢
    rw [htwo]
    field_simp
  · push_cast at hten ⊢
    rw [hten]
    field_simp

theorem scaled_le_iff {w : ℚ} (hw : 0 < w) (a s c u : Nat) :
    (a : ℚ) * ((s : ℚ) * w) ≤ c * (u * w) ↔ a * s ≤ c * u := by
  rw [← mul_assoc, ← mul_assoc, mul_le_mul_iff_left₀ hw]
  exact_mod_cast Iff.rfl

theorem scaled_lt_iff {w : ℚ} (hw : 0 < w) (a s c u : Nat) :
    (a : ℚ) * ((s : ℚ) * w) < c * (u * w) ↔ a * s < c * u := by
  rw [← mul_assoc, ← mul_assoc, mul_lt_mul_iff_left₀ hw]
  exact_mod_cast Iff.rfl

/-- Whether a multiple of the spacing lies inside of the interval of a number, in the integers of
`nearestOnGrid?`. -/
def isInside (m : Nat) (e k : Int) (n c : Nat) : Bool :=
  let unit := 10 ^ (k - n).toNat * 2 ^ (2 - e).toNat
  let scale := 10 ^ (n - k).toNat * 2 ^ (e - 2).toNat
  let low := lowerQuarters m e * scale
  let high := (4 * m + 2) * scale
  if m % 2 = 0 then low ≤ c * unit && c * unit ≤ high else low < c * unit && c * unit < high

theorem isInside_iff {m : Nat} {e k : Int} {n c : Nat} :
    isInside m e k n c = true ↔ RoundsTo m e (c * 10 ^ (k - n)) := by
  obtain ⟨w, hw, hquarter, hspacing⟩ := exists_grid_scale e k n
  unfold isInside RoundsTo
  rw [hquarter, hspacing]
  simp only [scaled_le_iff hw, scaled_lt_iff hw]
  split <;> simp only [Bool.and_eq_true, decide_eq_true_eq]

/-- The multiple of the spacing that is next below a number. -/
def neighbourBelow (m : Nat) (e k : Int) (n : Nat) : Nat :=
  4 * m * (10 ^ (n - k).toNat * 2 ^ (e - 2).toNat) / (10 ^ (k - n).toNat * 2 ^ (2 - e).toNat)

theorem neighbourBelow_spec (m : Nat) (e k : Int) (n : Nat) :
    (neighbourBelow m e k n : ℚ) * 10 ^ (k - n) ≤ (4 * m : Nat) * 2 ^ (e - 2) ∧
      ((4 * m : Nat) : ℚ) * 2 ^ (e - 2) < (neighbourBelow m e k n + 1 : Nat) * 10 ^ (k - n) := by
  obtain ⟨w, hw, hquarter, hspacing⟩ := exists_grid_scale e k n
  have hpos : 0 < 10 ^ (k - n).toNat * 2 ^ (2 - e).toNat := by positivity
  rw [hquarter, hspacing, scaled_le_iff hw, scaled_lt_iff hw]
  refine ⟨Nat.div_mul_le_self _ _, ?_⟩
  rw [Nat.mul_comm (neighbourBelow m e k n + 1)]
  exact Nat.lt_mul_div_succ _ hpos

/-- What is found on a grid is a neighbour of the number inside of its interval. Where nothing is
found, both neighbours lie outside. -/
theorem nearestOnGrid?_cases (m : Nat) (e k : Int) (n : Nat) :
    (∃ c, nearestOnGrid? m e k n = some c ∧ isInside m e k n c = true) ∨
      nearestOnGrid? m e k n = none ∧ isInside m e k n (neighbourBelow m e k n) = false ∧
        isInside m e k n (neighbourBelow m e k n + 1) = false := by
  unfold nearestOnGrid?
  simp only [← lowerQuarters.eq_1]
  have hbelow : 4 * m * (10 ^ (n - k).toNat * 2 ^ (e - 2).toNat) /
      (10 ^ (k - n).toNat * 2 ^ (2 - e).toNat) = neighbourBelow m e k n := rfl
  rw [hbelow]
  generalize neighbourBelow m e k n = below
  have hinside : ∀ c, (if m % 2 = 0 then _ else _) = isInside m e k n c := fun _ => rfl
  simp only [hinside]
  split
  · exact .inr ⟨rfl, ‹_›, ‹_›⟩
  · exact .inl ⟨_, rfl, ‹_›⟩
  · exact .inl ⟨_, rfl, ‹_›⟩
  · refine .inl ?_
    split
    · exact ⟨_, rfl, ‹_›⟩
    · split
      · exact ⟨_, rfl, ‹_›⟩
      · refine ⟨_, rfl, ?_⟩
        rcases Nat.mod_two_eq_zero_or_one below with h | h <;> rw [h] <;> assumption

theorem roundsTo_of_lt {m : Nat} {e : Int} {q : ℚ}
    (hlow : (lowerQuarters m e : ℚ) * 2 ^ (e - 2) < q)
    (hhigh : q < ((4 * m + 2 : Nat) : ℚ) * 2 ^ (e - 2)) : RoundsTo m e q := by
  unfold RoundsTo
  split
  · exact ⟨hlow.le, hhigh.le⟩
  · exact ⟨hlow, hhigh⟩

/-- Where both neighbours of a number lie outside of its interval, the interval is no longer than
the spacing. -/
theorem interval_le_spacing {m : Nat} {e : Int} (hm : 0 < m) {below : Nat} {spacing : ℚ}
    (hle : (below : ℚ) * spacing ≤ (4 * m : Nat) * 2 ^ (e - 2))
    (hlt : ((4 * m : Nat) : ℚ) * 2 ^ (e - 2) < (below + 1 : Nat) * spacing)
    (hbelow : ¬ RoundsTo m e (below * spacing))
    (habove : ¬ RoundsTo m e ((below + 1 : Nat) * spacing)) :
    ((4 * m + 2 - lowerQuarters m e : Nat) : ℚ) * 2 ^ (e - 2) ≤ spacing := by
  have hquarter : (0 : ℚ) < 2 ^ (e - 2) := by positivity
  have hquarters : lowerQuarters m e < 4 * m := by
    unfold lowerQuarters
    split <;> omega
  have hlower : (below : ℚ) * spacing ≤ lowerQuarters m e * 2 ^ (e - 2) := by
    by_contra hlow
    refine hbelow (roundsTo_of_lt (not_le.1 hlow) (lt_of_le_of_lt hle ?_))
    gcongr
    omega
  have hupper : ((4 * m + 2 : Nat) : ℚ) * 2 ^ (e - 2) ≤ (below + 1 : Nat) * spacing := by
    by_contra hhigh
    refine habove (roundsTo_of_lt (lt_of_lt_of_le' hlt ?_) (not_le.1 hhigh))
    gcongr
  rw [Nat.cast_sub (by omega), sub_mul, sub_le_iff_le_add]
  push_cast at hupper ⊢
  linarith

/-- Seventeen digits are enough: their grid is finer than the interval of the number. -/
theorem exists_nearestOnGrid? {m : Nat} {e k : Int} (h : Canonical m e) (hm : 0 < m)
    (hk : (10 : ℚ) ^ (k - 1) ≤ m * 2 ^ e) : ∃ c, nearestOnGrid? m e k 17 = some c := by
  rcases nearestOnGrid?_cases m e k 17 with ⟨c, hc, -⟩ | ⟨-, hbelow, habove⟩
  · exact ⟨c, hc⟩
  exfalso
  obtain ⟨hle, hlt⟩ := neighbourBelow_spec m e k 17
  rw [← Bool.not_eq_true, isInside_iff] at hbelow habove
  have hspacing := interval_le_spacing hm hle hlt hbelow habove
  have hquarter : (0 : ℚ) < 2 ^ (e - 2) := by positivity
  -- The spacing is sixteen places below the first digit of the number.
  have hplaces : (10 : ℚ) ^ 16 * 10 ^ (k - (17 : Nat)) ≤ (4 * m : Nat) * 2 ^ (e - 2) := by
    calc (10 : ℚ) ^ 16 * 10 ^ (k - (17 : Nat)) = 10 ^ (k - 1) := by
          rw [← zpow_natCast, ← zpow_add₀ (by norm_num)]
          congr 1
          push_cast
          ring
      _ ≤ m * 2 ^ e := hk
      _ = (4 * m : Nat) * 2 ^ (e - 2) := by
          rw [show e = e - 2 + 2 by ring, zpow_add₀ (by norm_num)]
          push_cast
          ring_nf
  have hquarters : 10 ^ 16 * (4 * m + 2 - lowerQuarters m e) ≤ 4 * m := by
    have hle : ((10 ^ 16 * (4 * m + 2 - lowerQuarters m e) : Nat) : ℚ) * 2 ^ (e - 2) ≤
        (4 * m : Nat) * 2 ^ (e - 2) := by
      refine le_trans ?_ hplaces
      rw [Nat.cast_mul, mul_assoc, Nat.cast_pow]
      gcongr
      norm_num
    rw [mul_le_mul_iff_left₀ hquarter] at hle
    exact_mod_cast hle
  have hroom : m < 2 ^ 53 := h.1
  unfold lowerQuarters at hquarters
  split at hquarters
  · rename_i hmin
    have hm52 : m = 2 ^ 52 := hmin.1
    omega
  · omega

/-! ## The search -/

theorem roundsTo_of_nearestOnGrid? {m : Nat} {e k : Int} {n c : Nat}
    (h : nearestOnGrid? m e k n = some c) : RoundsTo m e (c * 10 ^ (k - n)) := by
  rcases nearestOnGrid?_cases m e k n with ⟨c', hc, hinside⟩ | ⟨hnone, -⟩
  · rw [h] at hc
    cases hc
    exact isInside_iff.1 hinside
  · rw [h] at hnone
    cases hnone

/-- What is found first stands for a multiple of some spacing inside of the interval. -/
theorem exists_shortestFrom {m : Nat} {e k : Int} (h : Canonical m e) (hm : 0 < m)
    (hk : (10 : ℚ) ^ (k - 1) ≤ m * 2 ^ e) (tries n : Nat) (hn : n + tries = 17) :
    ∃ c n' : Nat, RoundsTo m e (c * 10 ^ (k - n')) ∧ shortestFrom m e k n (tries + 1) =
      ⟨dropEndWhile (· == '0') (Nat.toDigits 10 c), k + ((Nat.toDigits 10 c).length - n')⟩ := by
  induction tries generalizing n with
  | zero =>
    obtain rfl : n = 17 := hn
    obtain ⟨c, hc⟩ := exists_nearestOnGrid? h hm hk
    exact ⟨c, 17, roundsTo_of_nearestOnGrid? hc, by rw [shortestFrom, hc]⟩
  | succ tries ih =>
    cases hgrid : nearestOnGrid? m e k n with
    | some c => exact ⟨c, n, roundsTo_of_nearestOnGrid? hgrid, by rw [shortestFrom, hgrid]⟩
    | none =>
      rw [shortestFrom, hgrid]
      exact ih (n + 1) (by omega)

/-- The rational that digits stand for. -/
def Digits.value (d : Digits) : ℚ :=
  (decimalValue (digitValues d.digits) : ℚ) * 10 ^ (d.point - d.digits.length)

/-- Digits of a decimal: there is a first one, and it is not zero. -/
structure Digits.WellFormed (d : Digits) : Prop where
  isDigit : ∀ c ∈ d.digits, c.isDigit = true
  first : ∃ c s, d.digits = c :: s ∧ c ≠ '0'

/-- Digits without the zeros at their end, with the point where it was. -/
theorem value_dropEndWhile (digits : Text) (point : Int) :
    Digits.value ⟨dropEndWhile (· == '0') digits, point⟩ = Digits.value ⟨digits, point⟩ := by
  obtain ⟨z, hz⟩ := exists_dropEndWhile_append '0' digits
  generalize dropEndWhile (· == '0') digits = kept at hz
  subst hz
  have hten : (10 : ℚ) ≠ 0 := by norm_num
  simp only [Digits.value]
  rw [digitValues_append, digitValues_replicate_zero, decimalValue_append,
    decimalValue_replicate_zero, List.length_replicate, List.length_append, List.length_replicate,
    Nat.add_zero]
  push_cast
  rw [mul_assoc, ← zpow_natCast, ← zpow_add₀ hten]
  congr 2
  ring

/-- The digits of a positive integer, scaled, without zeros at their end. -/
theorem wellFormed_dropEndWhile {c : Nat} (hc : 0 < c) (point : Int) :
    Digits.WellFormed ⟨dropEndWhile (· == '0') (Nat.toDigits 10 c), point⟩ := by
  obtain ⟨z, hz⟩ := exists_dropEndWhile_append '0' (Nat.toDigits 10 c)
  have hdigit := isDigit_toDigits c
  have hfirst := head?_toDigits hc
  have hne : Nat.toDigits 10 c ≠ [] := Nat.toDigits_ne_nil
  generalize dropEndWhile (· == '0') (Nat.toDigits 10 c) = kept at hz
  rw [← hz] at hdigit hfirst hne
  cases kept with
  | nil =>
    cases z with
    | zero => exact absurd rfl hne
    | succ z => exact absurd rfl hfirst
  | cons d s =>
    refine ⟨fun c hc => hdigit c (List.mem_append_left _ hc), d, s, rfl, ?_⟩
    rintro rfl
    exact hfirst rfl

theorem quotient_spec (m : Nat) (e : Int) :
    0 < (quotient m e).2 ∧ ((quotient m e).1 : ℚ) / (quotient m e).2 = m * 2 ^ e := by
  have hpow := zpow_eq_div (b := 2) (by decide) e
  push_cast at hpow
  unfold quotient
  split
  · rename_i he
    refine ⟨Nat.one_pos, ?_⟩
    rw [hpow, show (-e).toNat = 0 by omega]
    push_cast
    simp
  · rename_i he
    refine ⟨by positivity, ?_⟩
    rw [hpow, show e.toNat = 0 by omega]
    push_cast
    ring

/-- **The shortest digits stand for the number.** They are digits of which the first is not zero,
and what they are worth is rounded to the number. -/
theorem shortestDigits_spec {m : Nat} {e : Int} (h : Canonical m e) (hm : 0 < m) :
    (shortestDigits m e).WellFormed ∧ RoundsTo m e (shortestDigits m e).value := by
  obtain ⟨hden, hvalue⟩ := quotient_spec m e
  have hdepth : (1 : ℚ) ≤ m * 2 ^ e * 10 ^ decimalDepth := by
    have hone : (1 : ℚ) ≤ m := by exact_mod_cast hm
    calc (1 : ℚ) ≤ 2 ^ (-1074 : Int) * 10 ^ decimalDepth := by
          rw [zpow_neg, ← div_eq_inv_mul, one_le_div (by positivity)]
          exact_mod_cast (by decide +kernel : 2 ^ 1074 ≤ 10 ^ decimalDepth)
      _ ≤ 2 ^ e * 10 ^ decimalDepth := by
          gcongr
          · norm_num
          · exact h.2.1
      _ ≤ m * 2 ^ e * 10 ^ decimalDepth := by
          gcongr
          exact le_mul_of_one_le_left (by positivity) hone
  rw [← hvalue] at hdepth
  have hk := pow_decimalPoint_le hden hdepth
  rw [hvalue] at hk
  obtain ⟨c, n, hround, hfound⟩ := exists_shortestFrom h hm hk 16 1 rfl
  have hdigits : shortestDigits m e = _ := hfound
  have hc : 0 < c := by
    rw [Nat.pos_iff_ne_zero]
    rintro rfl
    have hlow := hround.le.1
    have hpos : (0 : ℚ) < lowerQuarters m e := by exact_mod_cast lowerQuarters_pos hm e
    rw [Nat.cast_zero, zero_mul] at hlow
    exact absurd hlow (not_le.2 (by positivity))
  rw [hdigits]
  refine ⟨wellFormed_dropEndWhile hc _, ?_⟩
  rw [value_dropEndWhile, Digits.value, decimalValue_digitValues_toDigits]
  convert hround using 2
  congr 1
  push_cast
  ring

end Binary64

end SvgAssets
