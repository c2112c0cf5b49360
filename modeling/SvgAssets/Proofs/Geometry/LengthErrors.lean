/-
# SvgAssets.Proofs.Geometry.LengthErrors -- when a geometry cannot be inferred

A text without a geometry is no error: there is none to infer. Inferring fails where a number leaves
the range of the binary64 numbers, and that happens in two places. A literal length may be written
beyond the range (`IsTooLarge`), and a side that is derived may leave it in one of the steps that
compute it (`SideOverflows`). `infer_eq_error_iff` says that these are all.
-/
import SvgAssets.Proofs.Geometry.DerivedSide

namespace SvgAssets.Geometry

open Binary64

/-! ## Literal lengths -/

/-- An attribute holds a literal length that is written beyond the range of the numbers. -/
def IsTooLarge (given : Option Text) (written : Text) : Prop :=
  ∃ value n, given = some value ∧ '%' ∉ value ∧ lengthNumeral? value = some (written, n) ∧
    limit ≤ n.magnitude

theorem isDecimal_of_lengthNumeral? {value written : Text} {n : Numeral}
    (h : lengthNumeral? value = some (written, n)) : n.IsDecimal := by
  unfold lengthNumeral? at h
  dsimp only at h
  split at h
  · cases h
  · rename_i hread
    split at h
    · cases h
      exact Text.isDecimal_of_readMantissa hread
    · cases h

/-- A numeral is no finite number if it is written beyond the range. -/
theorem finiteNumber?_toBinary64_eq_none_iff {n : Numeral} (hn : n.IsDecimal) :
    finiteNumber? n.toBinary64 = none ↔ limit ≤ n.magnitude := by
  have hpos : 0 ≤ n.magnitude := by
    unfold Numeral.magnitude
    positivity
  have hvalue := (Numeral.isRounded_toBinary64 hn).value
  rw [← abs_of_nonneg hpos, ← abs_signed n.negative, ← nearest?_eq_none_iff, ← hvalue]
  obtain ⟨number, q, hnumber, hq, -⟩ | ⟨hnumber, hq⟩ := finiteNumber?_eq n.toBinary64
  · rw [hnumber, hq]
    exact ⟨nofun, nofun⟩
  · exact ⟨fun _ => hq, fun _ => hnumber⟩

theorem isTooLarge_some_iff {value written : Text} : IsTooLarge (some value) written ↔
    ∃ n, '%' ∉ value ∧ lengthNumeral? value = some (written, n) ∧ limit ≤ n.magnitude := by
  constructor
  · rintro ⟨_, n, h, hnumeral⟩
    cases h
    exact ⟨n, hnumeral⟩
  · rintro ⟨n, hnumeral⟩
    exact ⟨value, n, rfl, hnumeral⟩

/-- **Literal lengths.** A length is an error only where it is written beyond the range. -/
theorem parseOptionalLength_eq_error_iff {given : Option Text} {e : LengthError} :
    parseOptionalLength given = .error e ↔
      ∃ written, IsTooLarge given written ∧ e = .notFinite written := by
  cases given with
  | none => simp [parseOptionalLength, IsTooLarge]
  | some value =>
    simp only [isTooLarge_some_iff, parseOptionalLength, parseLength]
    by_cases hpercent : '%' ∈ value
    · simp [hpercent]
    · simp only [List.contains_iff_mem, hpercent, if_false, not_false_eq_true, true_and]
      cases hnumeral : lengthNumeral? value with
      | none => simp
      | some read =>
        obtain ⟨written, n⟩ := read
        have hlimit := finiteNumber?_toBinary64_eq_none_iff (isDecimal_of_lengthNumeral? hnumeral)
        cases hfinite : finiteNumber? n.toBinary64 with
        | some number =>
          have hwithin : ¬ limit ≤ n.magnitude := by rw [← hlimit, hfinite]; exact nofun
          simp [hfinite, hwithin]
        | none => simp [hfinite, hlimit.1 hfinite, eq_comm]

theorem exists_isRead_of_parseOptionalLength {given : Option Text} {side : Number}
    (h : parseOptionalLength given = .ok (some side)) : ∃ q, IsRead side q := by
  unfold parseOptionalLength parseLength at h
  split at h
  · cases h
  · split at h
    · cases h
    · split at h
      · cases h
      · split at h
        · rename_i hnumber
          cases h
          exact exists_isRead_of_finiteNumber? hnumber
        · cases h

/-! ## Derived sides -/

/-- Whether a number is kept as an integer. -/
def isInt : Number → Bool
  | .int _ => true
  | .float _ => false

/-- The steps in which `side * b / a` leaves the range of the numbers. The product of integers is
exact; its quotient by an integer is rounded once, and by a binary64 number after it has become one
itself. Any other product is rounded, and so is its quotient. -/
inductive SideOverflows : Number → Number → Number → Number.RangeError → Prop
  | quotient {s b a : Int} : limit ≤ |(s * b / a : ℚ)| →
    SideOverflows (.int s) (.int b) (.int a) .quotientTooLarge
  | dividend {s b : Int} {a : Binary64} : limit ≤ |(s * b : ℚ)| →
    SideOverflows (.int s) (.int b) (.float a) .integerTooLarge
  | product {side b a : Number} {p q : ℚ} : (isInt side && isInt b) = false →
    side.value? = some p → b.value? = some q → limit ≤ |p * q| →
    SideOverflows side b a .floorOfInfinity
  | roundedQuotient {side b a : Number} {p q r t : ℚ} : (isInt side && isInt b && isInt a) = false →
    side.value? = some p → b.value? = some q → a.value? = some r → nearest? (p * q) = some t →
    limit ≤ |t / r| → SideOverflows side b a .floorOfInfinity

/-- A quotient of an infinity is an infinity, and has no integer below it. -/
theorem floor_infinity_div {negative : Bool} {y : Binary64} {r : ℚ} (hy : y.value? = some r) :
    Number.floor ((infinity negative).div y) = .error .floorOfInfinity := by
  obtain ⟨b, m, e, hc, rfl, -⟩ := exists_finite_of_value? hy
  rfl

theorem floor_div_of_limit_le {x y : Binary64} {p r : ℚ} (hx : x.value? = some p)
    (hy : y.value? = some r) (hr : r ≠ 0) (h : limit ≤ |p / r|) :
    Number.floor (x.div y) = .error .floorOfInfinity := by
  obtain ⟨negative, hinfinity⟩ := (isRounded_div hx hy hr).eq_infinity h
  rw [hinfinity]
  rfl

theorem floor_div_of_nearest? {x y : Binary64} {p r t : ℚ} (hx : x.value? = some p)
    (hy : y.value? = some r) (hr : r ≠ 0) (ht : nearest? (p / r) = some t) :
    Number.floor (x.div y) = .ok ⌊t⌋ :=
  Number.floor_of_value? ((isRounded_div hx hy hr).value.trans ht)

theorem mul_of_not_int {m n : Number} (h : (isInt m && isInt n) = false) :
    m.mul n = m.toBinary64.bind fun x => n.toBinary64.map fun y => .float (x.mul y) := by
  cases m <;> cases n <;> first | rfl | cases h

theorem div_of_not_int {m n : Number} (h : (isInt m && isInt n) = false) :
    m.div n = m.toBinary64.bind fun x => n.toBinary64.map fun y => x.div y := by
  cases m <;> cases n <;> first | rfl | cases h

section
variable {side b a : Number} {p q r t : ℚ}

/-- A product of which one factor is no integer is rounded. -/
theorem exists_mul_of_not_int (h : (isInt side && isInt b) = false) (hside : IsRead side p)
    (hb : IsRead b q) : ∃ z, side.mul b = .ok (.float z) ∧ IsRounded z (p * q) := by
  obtain ⟨x, hx, hxv⟩ := Number.exists_toBinary64 hside.1 hside.2
  obtain ⟨y, hy, hyv⟩ := Number.exists_toBinary64 hb.1 hb.2
  refine ⟨x.mul y, ?_, isRounded_mul hxv hyv⟩
  rw [mul_of_not_int h, hx, hy]
  rfl

/-- Where a product is within the range it is a dividend for a binary64 number. -/
theorem exists_dividend (h : (isInt side && isInt b && isInt a) = false) (hside : IsRead side p)
    (hb : IsRead b q) (ht : nearest? (p * q) = some t) :
    ∃ n x, side.mul b = .ok n ∧ (isInt n && isInt a) = false ∧ n.toBinary64 = .ok x ∧
      x.value? = some t := by
  cases hfactor : isInt side && isInt b with
  | false =>
    obtain ⟨z, hz, hround⟩ := exists_mul_of_not_int hfactor hside hb
    exact ⟨.float z, z, hz, rfl, rfl, hround.value.trans ht⟩
  | true =>
    rw [hfactor] at h
    cases side with
    | float => cases hfactor
    | int s =>
    cases b with
    | float => cases hfactor
    | int b =>
      have hvalue : (Number.int (s * b)).value? = some (p * q) := by
        have hp := hside.1
        have hq := hb.1
        rw [Number.value?, Option.some_inj] at hp hq
        rw [Number.value?, ← hp, ← hq, Int.cast_mul]
      obtain ⟨x, hx, hxv⟩ := Number.exists_toBinary64 hvalue ht
      exact ⟨.int (s * b), x, rfl, h, hx, hxv⟩

/-- The quotient of a dividend that is a binary64 number. -/
theorem derivedSide_of_dividend {n : Number} {x y : Binary64} (hmul : side.mul b = .ok n)
    (h : (isInt n && isInt a) = false) (hx : n.toBinary64 = .ok x) (hy : a.toBinary64 = .ok y) :
    derivedSide side b a =
      ((Number.floor (x.div y)).map Number.int).mapError LengthError.outOfRange := by
  rw [derivedSide_of_mul hmul, div_of_not_int h, hx, hy]
  rfl

/-- **Each of the steps fails** where it leaves the range. -/
theorem derivedSide_of_sideOverflows {e : Number.RangeError} (hside : IsRead side p)
    (hb : IsRead b q) (ha : IsRead a r) (hr : r ≠ 0) (h : SideOverflows side b a e) :
    derivedSide side b a = .error (.outOfRange e) := by
  cases h with
  | @quotient s b a hlimit =>
    have hne : a ≠ 0 := by
      rintro rfl
      exact hr (Option.some_inj.1 ha.1).symm
    rw [derivedSide_of_mul rfl, Number.div_int_of_limit_le hne (by exact_mod_cast hlimit)]
    rfl
  | @dividend s b a hlimit =>
    rw [derivedSide_of_mul rfl, div_of_not_int rfl,
      Number.toBinary64_of_limit_le (by exact_mod_cast hlimit)]
    rfl
  | product hfactor hp hq hlimit =>
    obtain ⟨z, hz, hround⟩ := exists_mul_of_not_int hfactor hside hb
    obtain ⟨y, hy, hyv⟩ := Number.exists_toBinary64 ha.1 ha.2
    rw [hside.1, Option.some_inj] at hp
    rw [hb.1, Option.some_inj] at hq
    subst hp hq
    obtain ⟨negative, rfl⟩ := hround.eq_infinity hlimit
    rw [derivedSide_of_dividend hz rfl rfl hy, floor_infinity_div hyv]
    rfl
  | roundedQuotient hfactor hp hq hr' ht hlimit =>
    rw [hside.1, Option.some_inj] at hp
    rw [hb.1, Option.some_inj] at hq
    rw [ha.1, Option.some_inj] at hr'
    subst hp hq hr'
    obtain ⟨n, x, hmul, hn, hx, hxv⟩ := exists_dividend hfactor hside hb ht
    obtain ⟨y, hy, hyv⟩ := Number.exists_toBinary64 ha.1 ha.2
    rw [derivedSide_of_dividend hmul hn hx hy, floor_div_of_limit_le hxv hyv hr hlimit]
    rfl

/-- A derived side is an integer, or leaves the range in one of the steps. -/
theorem derivedSide_cases (hside : IsRead side p) (hb : IsRead b q) (ha : IsRead a r)
    (hr : r ≠ 0) :
    (∃ n, derivedSide side b a = .ok n) ∨ ∃ e, SideOverflows side b a e := by
  cases hall : isInt side && isInt b && isInt a with
  | true =>
    cases side with
    | float => cases hall
    | int s =>
    cases b with
    | float => cases hall
    | int b =>
    cases a with
    | float => cases hall
    | int a =>
      have hne : a ≠ 0 := by
        rintro rfl
        exact hr (Option.some_inj.1 ha.1).symm
      cases hround : nearest? (((s * b : Int) : ℚ) / a) with
      | none =>
        rw [nearest?_eq_none_iff, Int.cast_mul] at hround
        exact .inr ⟨_, .quotient hround⟩
      | some t =>
        exact .inl ⟨.int ⌊t⌋, derivedSide_int_of_nearest? hne hround⟩
  | false =>
    cases hround : nearest? (p * q) with
    | some t =>
      obtain ⟨n, x, hmul, hn, hx, hxv⟩ := exists_dividend hall hside hb hround
      obtain ⟨y, hy, hyv⟩ := Number.exists_toBinary64 ha.1 ha.2
      cases hquotient : nearest? (t / r) with
      | none =>
        rw [nearest?_eq_none_iff] at hquotient
        exact .inr ⟨_, .roundedQuotient hall hside.1 hb.1 ha.1 hround hquotient⟩
      | some u =>
        refine .inl ⟨.int ⌊u⌋, ?_⟩
        rw [derivedSide_of_dividend hmul hn hx hy, floor_div_of_nearest? hxv hyv hr hquotient]
        rfl
    | none =>
      rw [nearest?_eq_none_iff] at hround
      cases hfactor : isInt side && isInt b with
      | false => exact .inr ⟨_, .product hfactor hside.1 hb.1 hround⟩
      | true =>
        rw [hfactor] at hall
        cases side with
        | float => cases hfactor
        | int s =>
        cases b with
        | float => cases hfactor
        | int b =>
        cases a with
        | int => cases hall
        | float a =>
          rw [← Option.some_inj.1 hside.1, ← Option.some_inj.1 hb.1] at hround
          exact .inr ⟨_, .dividend hround⟩

/-- **Derived sides.** A derived side is an error exactly where one of its steps leaves the
range. -/
theorem derivedSide_eq_error_iff {e : LengthError} (hside : IsRead side p) (hb : IsRead b q)
    (ha : IsRead a r) (hr : r ≠ 0) :
    derivedSide side b a = .error e ↔ ∃ k, SideOverflows side b a k ∧ e = .outOfRange k := by
  constructor
  · intro herror
    obtain ⟨n, hn⟩ | ⟨k, hk⟩ := derivedSide_cases hside hb ha hr
    · rw [hn] at herror
      cases herror
    · rw [derivedSide_of_sideOverflows hside hb ha hr hk] at herror
      cases herror
      exact ⟨k, hk, rfl⟩
  · rintro ⟨k, hk, rfl⟩
    exact derivedSide_of_sideOverflows hside hb ha hr hk

end

/-! ## Inference -/

/-- Why the geometry of a root tag cannot be inferred. -/
inductive InferenceFails (root : RootAttributes) : LengthError → Prop
  /-- The width is written beyond the range of the numbers. -/
  | width {written : Text} :
      IsTooLarge root.width written → InferenceFails root (.notFinite written)
  /-- The height is, and the width is not. -/
  | height {width : Option Number} {written : Text} : parseOptionalLength root.width = .ok width →
    IsTooLarge root.height written → InferenceFails root (.notFinite written)
  /-- The height that belongs to a width alone leaves the range. -/
  | derivedHeight {side : Number} {box : ViewBox} {e : Number.RangeError} :
    parseOptionalLength root.width = .ok (some side) → parseOptionalLength root.height = .ok none →
    root.viewBox = some box → box.isUsable = true →
    SideOverflows side box.height box.width e → InferenceFails root (.outOfRange e)
  /-- The width that belongs to a height alone leaves the range. -/
  | derivedWidth {side : Number} {box : ViewBox} {e : Number.RangeError} :
    parseOptionalLength root.width = .ok none → parseOptionalLength root.height = .ok (some side) →
    root.viewBox = some box → box.isUsable = true →
    SideOverflows side box.width box.height e → InferenceFails root (.outOfRange e)

/-- The sides of a usable view box are not zero. -/
theorem ne_zero_of_isUsable {box : ViewBox} (h : box.isUsable = true) :
    box.width.value? ≠ some 0 ∧ box.height.value? ≠ some 0 := by
  rw [ViewBox.isUsable, Bool.and_eq_true, Bool.not_eq_true', Bool.not_eq_true'] at h
  constructor
  · rw [Ne, ← Number.isZero_iff, h.1]
    exact Bool.false_ne_true
  · rw [Ne, ← Number.isZero_iff, h.2]
    exact Bool.false_ne_true

/-- A side that is derived from the view box of a root tag, for either side of the view box. -/
theorem derivedSide_viewBox_eq_error_iff {tag : Text} {box : ViewBox} {given : Option Text}
    {side : Number} {e : LengthError} (hside : parseOptionalLength given = .ok (some side))
    (hbox : (rootAttributes tag).viewBox = some box) (husable : box.isUsable = true) :
    (derivedSide side box.height box.width = .error e ↔
      ∃ k, SideOverflows side box.height box.width k ∧ e = .outOfRange k) ∧
    (derivedSide side box.width box.height = .error e ↔
      ∃ k, SideOverflows side box.width box.height k ∧ e = .outOfRange k) := by
  obtain ⟨p, hp⟩ := exists_isRead_of_parseOptionalLength hside
  obtain ⟨⟨w, hw⟩, h, hh⟩ := exists_isRead_of_viewBox hbox
  obtain ⟨hw0, hh0⟩ := ne_zero_of_isUsable husable
  rw [hw.1, Ne, Option.some_inj] at hw0
  rw [hh.1, Ne, Option.some_inj] at hh0
  exact ⟨derivedSide_eq_error_iff hp hh hw hw0, derivedSide_eq_error_iff hp hw hh hh0⟩

theorem ofRootAttributes_of_inferenceFails {tag : Text} (percentFallback : Bool) {e : LengthError}
    (h : InferenceFails (rootAttributes tag) e) :
    ofRootAttributes (rootAttributes tag) percentFallback = .error e := by
  cases h with
  | width hlarge =>
    rw [ofRootAttributes, parseOptionalLength_eq_error_iff.2 ⟨_, hlarge, rfl⟩]
    rfl
  | height hwidth hlarge =>
    rw [ofRootAttributes, hwidth, parseOptionalLength_eq_error_iff.2 ⟨_, hlarge, rfl⟩]
    rfl
  | derivedHeight hwidth hheight hbox husable hover =>
    have hkept := Option.filter_eq_some_iff.2 ⟨hbox, husable⟩
    rw [ofRootAttributes_widthAlone percentFallback hwidth hheight hkept,
      (derivedSide_viewBox_eq_error_iff hwidth hbox husable).1.2 ⟨_, hover, rfl⟩]
    rfl
  | derivedWidth hwidth hheight hbox husable hover =>
    have hkept := Option.filter_eq_some_iff.2 ⟨hbox, husable⟩
    rw [ofRootAttributes_heightAlone percentFallback hwidth hheight hkept,
      (derivedSide_viewBox_eq_error_iff hheight hbox husable).2.2 ⟨_, hover, rfl⟩]
    rfl

theorem inferenceFails_of_ofRootAttributes {tag : Text} {percentFallback : Bool} {e : LengthError}
    (h : ofRootAttributes (rootAttributes tag) percentFallback = .error e) :
    InferenceFails (rootAttributes tag) e := by
  cases hwidth : parseOptionalLength (rootAttributes tag).width with
  | error e' =>
    rw [ofRootAttributes, hwidth] at h
    cases h
    obtain ⟨written, hlarge, rfl⟩ := parseOptionalLength_eq_error_iff.1 hwidth
    exact .width hlarge
  | ok width =>
  cases hheight : parseOptionalLength (rootAttributes tag).height with
  | error e' =>
    rw [ofRootAttributes, hwidth, hheight] at h
    cases h
    obtain ⟨written, hlarge, rfl⟩ := parseOptionalLength_eq_error_iff.1 hheight
    exact .height hwidth hlarge
  | ok height =>
  cases hkept : (rootAttributes tag).viewBox.filter ViewBox.isUsable with
  | none =>
    rw [ofRootAttributes, hwidth, hheight, hkept] at h
    cases width <;> cases height <;> cases h
  | some box =>
  obtain ⟨hbox, husable⟩ := Option.filter_eq_some_iff.1 hkept
  -- Only where one length is missing beside the other is there anything to compute.
  cases width with
  | none =>
    cases height with
    | none =>
      rw [ofRootAttributes, hwidth, hheight, hkept] at h
      cases h
    | some side =>
      rw [ofRootAttributes_heightAlone percentFallback hwidth hheight hkept] at h
      cases hderived : derivedSide side box.width box.height with
      | ok =>
        rw [hderived] at h
        cases h
      | error =>
        rw [hderived] at h
        cases h
        obtain ⟨k, hover, rfl⟩ :=
          (derivedSide_viewBox_eq_error_iff hheight hbox husable).2.1 hderived
        exact .derivedWidth hwidth hheight hbox husable hover
  | some side =>
    cases height with
    | some =>
      rw [ofRootAttributes, hwidth, hheight, hkept] at h
      cases h
    | none =>
      rw [ofRootAttributes_widthAlone percentFallback hwidth hheight hkept] at h
      cases hderived : derivedSide side box.height box.width with
      | ok =>
        rw [hderived] at h
        cases h
      | error =>
        rw [hderived] at h
        cases h
        obtain ⟨k, hover, rfl⟩ :=
          (derivedSide_viewBox_eq_error_iff hwidth hbox husable).1.1 hderived
        exact .derivedHeight hwidth hheight hbox husable hover

theorem ofRootAttributes_eq_error_iff {tag : Text} {percentFallback : Bool} {e : LengthError} :
    ofRootAttributes (rootAttributes tag) percentFallback = .error e ↔
      InferenceFails (rootAttributes tag) e :=
  ⟨inferenceFails_of_ofRootAttributes, ofRootAttributes_of_inferenceFails percentFallback⟩

/-- **When a geometry cannot be inferred.** Whatever is asked for where there are no literal
lengths, inferring a geometry fails exactly where a literal length is written beyond the range of
the numbers, or where the side that it leaves to be derived leaves that range. -/
theorem infer_eq_error_iff {text : Text} {percentFallback : Bool} {e : LengthError} :
    infer text percentFallback = .error e ↔
      ∃ tag, Markup.rootTag? text = some tag ∧ InferenceFails (rootAttributes tag) e := by
  cases htag : Markup.rootTag? text with
  | none =>
    simp [infer, htag]
  | some tag =>
    rw [infer_of_rootTag? percentFallback htag, ofRootAttributes_eq_error_iff]
    constructor
    · exact fun h => ⟨tag, rfl, h⟩
    · rintro ⟨tag', htag', hfails⟩
      cases htag'
      exact hfails

/-- A root tag with a width of 310 digits. -/
def oversizedWidth : Text :=
  "<svg width=\"1".toList ++ List.replicate 309 '0' ++ "\" height=\"1\"/>".toList

/-- A width that is written beyond the range is an error, and so is a height that is derived from
numbers within the range. -/
theorem infer_beyondRange :
    infer oversizedWidth true = .error (.notFinite ('1' :: List.replicate 309 '0')) ∧
      infer "<svg width=\"1\" viewBox=\"0 0 1e-300 1e300\"/>".toList true =
        .error (.outOfRange .floorOfInfinity) := by
  constructor <;> decide +kernel

end SvgAssets.Geometry
