/-
# SvgAssets.Proofs.Text.CharacterClasses -- classes of characters, and what a change of case does

A class of characters is a list of ranges of code points. To compare classes, one is taken as one
number with a bit for each code point (`bits`): that a range lies in a class, or that two classes
have nothing in common, is then seen at once, however many ranges they have.

A case mapping moves whole runs of code points and lists the few characters that have several
images. So what it does to a class is read off its tables: a run that lies in the class from end to
end has to have an image that does (`mapCase_induct`). Checked in this way, the mappings to upper
and to lower case take letters and digits to letters and digits, and leave all other numbers among
themselves (`keepsKind_upperChar`, `keepsKind_lowerChar`).
-/
import SvgAssets.Text.Casing
import SvgAssets.Text.Digit
import SvgAssets.Text.WordChar

namespace SvgAssets.Text

/-! ## Ranges of code points -/

/-- The number in which the lowest `k` bits are set, and no others. -/
def lowBits (k : Nat) : Nat := 1 <<< k - 1

/-- The number in which the bits of the code points in the ranges are set, and no others. -/
def bits (ranges : List (Nat × Nat)) : Nat :=
  ranges.foldr (fun r set => lowBits (r.2 + 1 - r.1) <<< r.1 ||| set) 0

/-- Whether all bits from `low` to `high` are set. -/
def holdsAll (set low high : Nat) : Bool :=
  set >>> low &&& lowBits (high + 1 - low) == lowBits (high + 1 - low)

/-- Whether no bit from `low` to `high` is set. -/
def holdsNone (set low high : Nat) : Bool := set >>> low &&& lowBits (high + 1 - low) == 0

theorem testBit_lowBits (k n : Nat) : (lowBits k).testBit n = decide (n < k) := by
  rw [lowBits, Nat.one_shiftLeft, Nat.testBit_two_pow_sub_one]

theorem testBit_bits (ranges : List (Nat × Nat)) (n : Nat) :
    (bits ranges).testBit n = inRanges ranges n := by
  induction ranges with
  | nil => exact Nat.zero_testBit n
  | cons r rest ih =>
    rw [bits, List.foldr_cons, ← bits, Nat.testBit_or, ih, Nat.testBit_shiftLeft, testBit_lowBits,
      inRanges, inRanges, List.any_cons]
    congr 1
    rw [Bool.eq_iff_iff]
    simp only [Bool.and_eq_true, decide_eq_true_eq]
    omega

section

variable {ranges : List (Nat × Nat)} {low high n : Nat}

theorem testBit_shiftRight_and (set : Nat) (hlow : low ≤ n) (hhigh : n ≤ high) :
    (set >>> low &&& lowBits (high + 1 - low)).testBit (n - low) = set.testBit n := by
  rw [Nat.testBit_and, Nat.testBit_shiftRight, testBit_lowBits, Nat.add_sub_cancel' hlow,
    decide_eq_true (by omega), Bool.and_true]

theorem inRanges_of_holdsAll (h : holdsAll (bits ranges) low high = true) (hlow : low ≤ n)
    (hhigh : n ≤ high) : inRanges ranges n = true := by
  rw [holdsAll, beq_iff_eq] at h
  rw [← testBit_bits, ← testBit_shiftRight_and _ hlow hhigh, h, testBit_lowBits,
    decide_eq_true_eq]
  omega

theorem inRanges_of_holdsNone (h : holdsNone (bits ranges) low high = true) (hlow : low ≤ n)
    (hhigh : n ≤ high) : inRanges ranges n = false := by
  rw [holdsNone, beq_iff_eq] at h
  rw [← testBit_bits, ← testBit_shiftRight_and _ hlow hhigh, h, Nat.zero_testBit]

/-- A code point lies in at most one of two classes that have nothing in common. -/
theorem inRanges_eq_false_of_bits {others : List (Nat × Nat)} (h : bits ranges &&& bits others = 0)
    (hn : inRanges ranges n = true) : inRanges others n = false := by
  have hboth : (bits ranges &&& bits others).testBit n = false := by rw [h, Nat.zero_testBit]
  rwa [Nat.testBit_and, testBit_bits, testBit_bits, hn, Bool.true_and] at hboth

end

/-- What holds of each ASCII character is checked code point by code point. -/
theorem forall_ascii {P : Char → Prop} (h : ∀ n < 0x80, P (Char.ofNat n)) {c : Char}
    (hc : c.toNat < 0x80) : P c := by
  have hchar := h c.toNat hc
  rwa [Char.ofNat_toNat] at hchar

/-! ## Letters and numbers -/

/-- The numbers that are no digits (fractions, Roman numerals, tens and more), as ranges of code
points. -/
def otherNumberRanges : List (Nat × Nat) :=
  [(0xbc, 0xbe), (0x9f4, 0x9f9), (0xb72, 0xb77), (0xbf0, 0xbf2), (0xc78, 0xc7e), (0xd58, 0xd5e),
    (0xd70, 0xd78), (0xf2a, 0xf33), (0x1372, 0x137c), (0x16ee, 0x16f0), (0x17f0, 0x17f9),
    (0x2150, 0x2182), (0x2185, 0x2189), (0x2469, 0x2473), (0x247d, 0x2487), (0x2491, 0x249b),
    (0x24eb, 0x24f4), (0x24fe, 0x24fe), (0x277f, 0x277f), (0x2789, 0x2789), (0x2793, 0x2793),
    (0x2cfd, 0x2cfd), (0x3007, 0x3007), (0x3021, 0x3029), (0x3038, 0x303a), (0x3192, 0x3195),
    (0x3220, 0x3229), (0x3248, 0x324f), (0x3251, 0x325f), (0x3280, 0x3289), (0x32b1, 0x32bf),
    (0xa6e6, 0xa6ef), (0xa830, 0xa835), (0x10107, 0x10133), (0x10140, 0x10178),
    (0x1018a, 0x1018b), (0x102e1, 0x102fb), (0x10320, 0x10323), (0x10341, 0x10341),
    (0x1034a, 0x1034a), (0x103d1, 0x103d5), (0x10858, 0x1085f), (0x10879, 0x1087f),
    (0x108a7, 0x108af), (0x108fb, 0x108ff), (0x10916, 0x1091b), (0x109bc, 0x109bd),
    (0x109c0, 0x109cf), (0x109d2, 0x109ff), (0x10a44, 0x10a48), (0x10a7d, 0x10a7e),
    (0x10a9d, 0x10a9f), (0x10aeb, 0x10aef), (0x10b58, 0x10b5f), (0x10b78, 0x10b7f),
    (0x10ba9, 0x10baf), (0x10cfa, 0x10cff), (0x10e69, 0x10e7e), (0x10f1d, 0x10f26),
    (0x10f51, 0x10f54), (0x10fc5, 0x10fcb), (0x1105b, 0x11065), (0x111e1, 0x111f4),
    (0x1173a, 0x1173b), (0x118ea, 0x118f2), (0x11c5a, 0x11c6c), (0x11fc0, 0x11fd4),
    (0x12400, 0x1246e), (0x16b5b, 0x16b61), (0x16e80, 0x16e96), (0x1d2e0, 0x1d2f3),
    (0x1d360, 0x1d378), (0x1e8c7, 0x1e8cf), (0x1ec71, 0x1ecab), (0x1ecad, 0x1ecaf),
    (0x1ecb1, 0x1ecb4), (0x1ed01, 0x1ed2d), (0x1ed2f, 0x1ed3d), (0x1f10b, 0x1f10c)]

/-- Number that is no digit. -/
def isOtherNumber (c : Char) : Bool := inRanges otherNumberRanges c.toNat

/-- Letter of any script. -/
def isLetter (c : Char) : Bool := isAlphanumeric c && !isDigit c && !isOtherNumber c

/-- The letters and digits of ASCII. -/
def asciiRanges : List (Nat × Nat) := [(0x30, 0x39), (0x41, 0x5a), (0x61, 0x7a)]

/-- The letters and numbers, those of ASCII included. -/
def letterOrNumberRanges : List (Nat × Nat) := asciiRanges ++ alphanumericRanges

/-- No letter or number of the table is in ASCII. -/
theorem not_ascii_of_alphanumericRanges {n : Nat} (hn : n < 0x80) :
    inRanges alphanumericRanges n = false := by
  have hnone : holdsNone (bits alphanumericRanges) 0 0x7f = true := by decide +kernel
  exact inRanges_of_holdsNone hnone (Nat.zero_le n) (Nat.le_of_lt_succ hn)

theorem inRanges_letterOrNumberRanges (n : Nat) : inRanges letterOrNumberRanges n =
    (inRanges asciiRanges n || inRanges alphanumericRanges n) := List.any_append

theorem isAlphanumeric_eq (c : Char) :
    isAlphanumeric c = inRanges letterOrNumberRanges c.toNat := by
  rw [inRanges_letterOrNumberRanges, isAlphanumeric]
  split
  · rename_i hc
    rw [not_ascii_of_alphanumericRanges hc, Bool.or_false]
    apply forall_ascii (P := fun c => c.isAlphanum = inRanges asciiRanges c.toNat) _ hc
    decide +kernel
  · rename_i hc
    have hascii : inRanges asciiRanges c.toNat = false := by
      simp only [inRanges, asciiRanges, List.any_cons, List.any_nil, Bool.or_false,
        Bool.or_eq_false_iff, Bool.and_eq_false_iff, decide_eq_false_iff_not]
      omega
    rw [hascii, Bool.false_or]

theorem isAlphanumeric_of_ascii {c : Char} (h : inRanges asciiRanges c.toNat = true) :
    isAlphanumeric c = true := by
  rw [isAlphanumeric_eq, inRanges_letterOrNumberRanges, h, Bool.true_or]

theorem isDecimal_eq (c : Char) :
    isDecimal c = inRanges (decimalZeros.map fun first => (first, first + 9)) c.toNat := by
  rw [Bool.eq_iff_iff, isDecimal, digitValue?, Option.isSome_map, List.find?_isSome, inRanges,
    List.any_map, List.any_eq_true]
  rfl

/-- The two kinds of number have nothing in common. -/
theorem not_isDigit_of_isOtherNumber {c : Char} (h : isOtherNumber c = true) :
    isDigit c = false := by
  rw [isOtherNumber] at h
  have hdecimal : inRanges (decimalZeros.map fun first => (first, first + 9)) c.toNat = false := by
    refine inRanges_eq_false_of_bits ?_ h
    decide
  have hother : inRanges otherDigitRanges c.toNat = false := by
    refine inRanges_eq_false_of_bits ?_ h
    decide
  rw [isDigit, isDecimal_eq, hdecimal, hother]
  rfl

/-! ## Case mappings -/

/-- Whether all code points from `low` to `high` are characters. -/
def areValid (low high : Nat) : Bool :=
  Nat.blt high 0xd800 || (Nat.blt 0xdfff low && Nat.blt high 0x110000)

theorem toNat_ofNat_of_areValid {low high n : Nat} (h : areValid low high = true) (hlow : low ≤ n)
    (hhigh : n ≤ high) : (Char.ofNat n).toNat = n := by
  have hvalid : n.isValidChar := by
    simp only [areValid, Bool.or_eq_true, Bool.and_eq_true, Nat.blt_eq] at h
    show n < 0xd800 ∨ 0xdfff < n ∧ n < 0x110000
    omega
  rw [Char.ofNat, dif_pos hvalid]
  rfl

namespace CaseRun

variable {run : CaseRun} {n : Nat}

/-- The image of a code point that the run moves. -/
def image (run : CaseRun) (n : Nat) : Nat := (n + run.shift).toNat

/-- A code point that the run moves lies between its ends, and so does the image. -/
theorem bounds (h : run.covers n = true) : (run.first ≤ n ∧ n ≤ run.last) ∧
    run.image run.first ≤ run.image n ∧ run.image n ≤ run.image run.last := by
  simp only [covers, Bool.and_eq_true, decide_eq_true_eq] at h
  simp only [image]
  omega

/-- The code points that the run moves. -/
def points (run : CaseRun) : List Nat :=
  (List.range ((run.last - run.first) / run.step + 1)).map fun k => run.first + run.step * k

theorem mem_points (h : run.covers n = true) : n ∈ run.points := by
  obtain ⟨⟨hlow, hhigh⟩, -⟩ := bounds h
  simp only [covers, Bool.and_eq_true, beq_iff_eq] at h
  rw [points, List.mem_map]
  refine ⟨(n - run.first) / run.step, ?_, ?_⟩
  · rw [List.mem_range, Nat.lt_succ_iff]
    apply Nat.div_le_div_right
    omega
  · rw [Nat.mul_div_cancel' (Nat.dvd_of_mod_eq_zero h.2)]
    omega

end CaseRun

/-- What a mapping makes of a character: nothing else, the images that are listed for it, or its
image under a run. -/
theorem mapCase_induct {P : Char → Text → Prop} {runs : List CaseRun}
    {sequences : List (Nat × List Nat)} (self : ∀ c, P c [c])
    (sequence : ∀ x ∈ sequences, ∀ c : Char, c.toNat = x.1 → P c (x.2.map Char.ofNat))
    (run : ∀ run ∈ runs, ∀ c : Char, run.covers c.toNat = true →
      P c [Char.ofNat (run.image c.toNat)]) (c : Char) : P c (mapCase runs sequences c) := by
  rw [mapCase]
  split
  · rename_i images himages
    obtain ⟨front, back, rfl, -⟩ := List.lookup_eq_some_iff.1 himages
    exact sequence (c.toNat, images) (by simp) c rfl
  · split
    · rename_i found hfound
      have hcovers : found.covers c.toNat = true :=
        List.find?_some (p := fun r : CaseRun => r.covers c.toNat) hfound
      exact run found (List.mem_of_find?_eq_some hfound) c hcovers
    · exact self c

/-! ## The kind of a letter or number -/

/-- A letter or number `c` comes out with a letter or number in front, and this is a number other
than a digit just if `c` is. -/
def KeepsKind (c : Char) (image : Text) : Prop :=
  isAlphanumeric c = true → ∃ d rest, image = d :: rest ∧ isAlphanumeric d = true ∧
    isOtherNumber d = isOtherNumber c

theorem keepsKind_self (c : Char) : KeepsKind c [c] := fun hc => ⟨c, [], rfl, hc, rfl⟩

/-- The check of `KeepsKind` on the code points from `low` to `high`, which are moved to those from
`low'` to `high'`. -/
def keepsKind (low high low' high' : Nat) : Bool :=
  areValid low' high' && holdsAll (bits letterOrNumberRanges) low' high' &&
    (holdsNone (bits otherNumberRanges) low high && holdsNone (bits otherNumberRanges) low' high' ||
      holdsAll (bits otherNumberRanges) low high && holdsAll (bits otherNumberRanges) low' high')

theorem keepsKind_of_check {low high low' high' : Nat} (h : keepsKind low high low' high' = true)
    {c : Char} (hlow : low ≤ c.toNat) (hhigh : c.toNat ≤ high) {n : Nat} (hlow' : low' ≤ n)
    (hhigh' : n ≤ high') (rest : Text) : KeepsKind c (Char.ofNat n :: rest) := by
  simp only [keepsKind, Bool.and_eq_true, Bool.or_eq_true] at h
  obtain ⟨⟨hvalid, hword⟩, hother⟩ := h
  have hchar := toNat_ofNat_of_areValid hvalid hlow' hhigh'
  intro _
  refine ⟨_, rest, rfl, ?_, ?_⟩
  · rw [isAlphanumeric_eq, hchar]
    exact inRanges_of_holdsAll hword hlow' hhigh'
  · rw [isOtherNumber, isOtherNumber, hchar]
    rcases hother with ⟨hout, hout'⟩ | ⟨hin, hin'⟩
    · rw [inRanges_of_holdsNone hout hlow hhigh, inRanges_of_holdsNone hout' hlow' hhigh']
    · rw [inRanges_of_holdsAll hin hlow hhigh, inRanges_of_holdsAll hin' hlow' hhigh']

/-- The check of `KeepsKind` on a run: it moves no letter or number, or is checked as a whole, or
code point by code point. -/
def CaseRun.keepsKind (run : CaseRun) : Bool :=
  Text.keepsKind run.first run.last (run.image run.first) (run.image run.last) ||
    holdsNone (bits letterOrNumberRanges) run.first run.last ||
    run.points.all fun n => Text.keepsKind n n (run.image n) (run.image n)

theorem CaseRun.keepsKind_of_check {run : CaseRun} (h : run.keepsKind = true) {c : Char}
    (hc : run.covers c.toNat = true) : KeepsKind c [Char.ofNat (run.image c.toNat)] := by
  obtain ⟨⟨hlow, hhigh⟩, hlow', hhigh'⟩ := bounds hc
  rw [keepsKind, Bool.or_eq_true, Bool.or_eq_true] at h
  rcases h with (hwhole | hnone) | hpoints
  · exact Text.keepsKind_of_check hwhole hlow hhigh hlow' hhigh' []
  · intro halpha
    rw [isAlphanumeric_eq, inRanges_of_holdsNone hnone hlow hhigh] at halpha
    cases halpha
  · have hpoint := List.all_eq_true.1 hpoints _ (mem_points hc)
    exact Text.keepsKind_of_check hpoint (Nat.le_refl _) (Nat.le_refl _) (Nat.le_refl _)
      (Nat.le_refl _) []

theorem keepsKind_mapCase {runs : List CaseRun} {sequences : List (Nat × List Nat)}
    (hruns : runs.all CaseRun.keepsKind = true)
    (hsequences : (sequences.all fun x => x.2.head?.any fun n => keepsKind x.1 x.1 n n) = true)
    (c : Char) : KeepsKind c (mapCase runs sequences c) := by
  apply mapCase_induct
  · exact keepsKind_self
  · rintro ⟨m, images⟩ hx c rfl
    have hchecked := List.all_eq_true.1 hsequences _ hx
    cases images with
    | nil => cases hchecked
    | cons n others =>
      exact keepsKind_of_check hchecked (Nat.le_refl _) (Nat.le_refl _) (Nat.le_refl _)
        (Nat.le_refl _) _
  · intro run hrun c hc
    exact CaseRun.keepsKind_of_check (List.all_eq_true.1 hruns run hrun) hc

/-- A mapping that takes each character to itself or to a letter or digit of ASCII. -/
def MovesToAscii (f : Char → Char) : Prop :=
  ∀ c : Char, f c = c ∨ inRanges asciiRanges (f c).toNat = true

theorem movesToAscii_toUpper : MovesToAscii Char.toUpper := by
  intro c
  unfold Char.toUpper
  split
  · rename_i hlower
    right
    simp [inRanges, asciiRanges, UInt32.le_iff_toNat_le] at hlower ⊢
    omega
  · exact .inl rfl

theorem movesToAscii_toLower : MovesToAscii Char.toLower := by
  intro c
  unfold Char.toLower
  split
  · rename_i hupper
    right
    simp [inRanges, asciiRanges, UInt32.le_iff_toNat_le] at hupper ⊢
    omega
  · exact .inl rfl

/-- In ASCII there is no number but the digits. -/
theorem not_isOtherNumber_of_ascii {c : Char} (hc : c.toNat < 0x80) : isOtherNumber c = false := by
  have hnone : holdsNone (bits otherNumberRanges) 0 0x7f = true := by decide
  exact inRanges_of_holdsNone hnone (Nat.zero_le _) (Nat.le_of_lt_succ hc)

theorem keepsKind_ite {f : Char → Char} {runs : List CaseRun} {sequences : List (Nat × List Nat)}
    (hascii : MovesToAscii f) (hruns : runs.all CaseRun.keepsKind = true)
    (hsequences : (sequences.all fun x => x.2.head?.any fun n => keepsKind x.1 x.1 n n) = true)
    (c : Char) : KeepsKind c (if c.toNat < 0x80 then [f c] else mapCase runs sequences c) := by
  split
  · rename_i hc
    rcases hascii c with hself | himage
    · rw [hself]
      exact keepsKind_self c
    · intro _
      have hother : isOtherNumber (f c) = false := inRanges_eq_false_of_bits (by decide) himage
      refine ⟨f c, [], rfl, isAlphanumeric_of_ascii himage, ?_⟩
      rw [hother, not_isOtherNumber_of_ascii hc]
  · exact keepsKind_mapCase hruns hsequences c

theorem keepsKind_upperChar (c : Char) : KeepsKind c (upperChar c) := by
  apply keepsKind_ite movesToAscii_toUpper
  · decide +kernel
  · decide +kernel

theorem keepsKind_lowerChar (c : Char) : KeepsKind c (lowerChar c) := by
  apply keepsKind_ite movesToAscii_toLower
  · decide +kernel
  · decide +kernel

/-- The lower case of one character alone: a capital sigma ends no word then. -/
theorem lower_singleton (c : Char) : lower [c] = lowerChar c := by
  by_cases hsigma : c = 'Σ'
  · rw [hsigma]
    rfl
  · simp [lower, lowerFrom, hsigma]

theorem lowerFrom_of_ascii {s : Text} (h : ∀ c ∈ s, c.toNat < 0x80) (before : Text) :
    lowerFrom before s = s.map Char.toLower := by
  induction s generalizing before with
  | nil => rfl
  | cons c s ih =>
    rw [List.forall_mem_cons] at h
    have hsigma : c ≠ 'Σ' := by
      rintro rfl
      exact absurd h.1 (by decide)
    rw [lowerFrom, if_neg hsigma, lowerChar, if_pos h.1, ih h.2]
    rfl

/-- A text in ASCII is put in lower case character by character. -/
theorem lower_of_ascii {s : Text} (h : ∀ c ∈ s, c.toNat < 0x80) : lower s = s.map Char.toLower :=
  lowerFrom_of_ascii h []

end SvgAssets.Text
