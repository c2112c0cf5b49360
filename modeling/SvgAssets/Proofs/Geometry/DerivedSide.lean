/-
# SvgAssets.Proofs.Geometry.DerivedSide -- a derived side is an exact floor

One literal side and a view box give the other side: the literal side times the ratio of the sides
of the view box, rounded down. The product of integers is exact, but their quotient is rounded to a
binary64 number before it is rounded down, and a quotient just below an integer might be rounded up
to it. That does not happen while the product has at most 53 bits: a quotient that is no integer
is then further away from the integers than rounding moves it (`floor_eq_of_nearest?_div`).
-/
import SvgAssets.Geometry.Inference
import SvgAssets.Proofs.Number.Arithmetic

namespace SvgAssets.Geometry

open Binary64

/-! ## Quotients of integers -/

/-- A quotient of integers is the inverse of its divisor away from the integers it is not. -/
theorem inv_le_abs_sub {n a k : Int} (ha : a ≠ 0) (hne : (n / a : ℚ) ≠ k) :
    1 / |(a : ℚ)| ≤ |(n / a : ℚ) - k| := by
  have haq : (a : ℚ) ≠ 0 := by exact_mod_cast ha
  have hsub : (n / a : ℚ) - k = ((n - k * a : Int) : ℚ) / a := by
    push_cast
    field_simp
  have hone : 1 ≤ |n - k * a| := by
    refine Int.one_le_abs fun hzero => hne ?_
    rw [hzero, Int.cast_zero, zero_div, sub_eq_zero] at hsub
    exact hsub
  rw [hsub, abs_div]
  gcongr
  exact_mod_cast hone

/-- What is nearer to a rational than every integer lies between the same two integers. -/
theorem floor_eq_of_abs_sub_lt {q r gap : ℚ} (hgap : ∀ k : Int, gap ≤ |q - k|)
    (h : |r - q| < gap) : ⌊r⌋ = ⌊q⌋ := by
  have hbelow := hgap ⌊q⌋
  have habove := hgap (⌊q⌋ + 1)
  have hfloor := Int.floor_le q
  have hnext := Int.lt_floor_add_one q
  rw [abs_of_nonneg (sub_nonneg.2 hfloor)] at hbelow
  rw [Int.cast_add, Int.cast_one, abs_sub_comm, abs_of_pos (sub_pos.2 hnext)] at habove
  obtain ⟨hlow, hhigh⟩ := abs_lt.1 h
  rw [Int.floor_eq_iff]
  constructor <;> linarith

/-- **Rounding down a rounded quotient.** A quotient of integers with a dividend of at most 53 bits
has the same integer below it when it is rounded first. -/
theorem floor_eq_of_nearest?_div {n a : Int} (ha : a ≠ 0) (hn : |n| < 2 ^ 53)
    (hlimit : |(a : ℚ)| < limit) :
    ∃ r, nearest? (n / a) = some r ∧ ⌊r⌋ = ⌊(n / a : ℚ)⌋ := by
  have hnq : |(n : ℚ)| < 2 ^ 53 := by exact_mod_cast hn
  have hone : (1 : ℚ) ≤ |(a : ℚ)| := by exact_mod_cast Int.one_le_abs ha
  have hquotient : |(n / a : ℚ)| ≤ |(n : ℚ)| := by
    rw [abs_div]
    exact div_le_self (abs_nonneg _) hone
  by_cases hint : ∃ k : Int, (n / a : ℚ) = k
  · obtain ⟨k, hk⟩ := hint
    refine ⟨k, ?_, by rw [hk]⟩
    rw [hk] at hquotient ⊢
    refine nearest?_intCast ?_
    have hk53 : |k| < 2 ^ 53 := by exact_mod_cast lt_of_le_of_lt hquotient hnq
    rw [Int.abs_eq_natAbs] at hk53
    exact_mod_cast hk53
  · rw [not_exists] at hint
    cases hround : nearest? (n / a : ℚ) with
    | none =>
      have hpow : (2 : ℚ) ^ (53 : Int) < limit :=
        lt_trans (zpow_lt_zpow_right₀ one_lt_two (by decide)) pow_lt_limit
      have hcast : (2 : ℚ) ^ (53 : Int) = 2 ^ 53 := zpow_natCast 2 53
      rw [nearest?_eq_none_iff] at hround
      rw [hcast] at hpow
      exact absurd (hround.trans hquotient) (not_le.2 (hnq.trans hpow))
    | some r =>
      refine ⟨r, rfl, floor_eq_of_abs_sub_lt (fun k => inv_le_abs_sub ha (hint k)) ?_⟩
      refine lt_of_le_of_lt (abs_sub_le_of_nearest? hround) (max_lt ?_ ?_)
      · rw [abs_div, div_right_comm, div_lt_div_iff_of_pos_right (by positivity)]
        rwa [div_lt_one (by positivity)]
      · rw [zpow_neg, ← one_div, one_div_lt_one_div (by positivity) (by positivity)]
        refine (lt_trans hlimit limit_lt_pow).trans ?_
        exact zpow_lt_zpow_right₀ one_lt_two (by decide)

/-! ## Numbers that are read -/

/-- A number is read off a text: it has a value, and rounding leaves that alone. -/
def IsRead (n : Number) (q : ℚ) : Prop := n.value? = some q ∧ nearest? q = some q

/-- A binary64 number is a length where it has a value, and the length has the same. -/
theorem finiteNumber?_eq (x : Binary64) :
    (∃ n q, finiteNumber? x = some n ∧ x.value? = some q ∧ IsRead n q) ∨
      finiteNumber? x = none ∧ x.value? = none := by
  cases x with
  | nan => exact .inr ⟨rfl, rfl⟩
  | infinity => exact .inr ⟨rfl, rfl⟩
  | finite negative m e hc =>
    have hread := nearest?_value (x := .finite negative m e hc) rfl
    cases hint : (finite negative m e hc).toInt? with
    | none =>
      refine .inl ⟨.float (.finite negative m e hc), _, ?_, rfl, rfl, hread⟩
      rw [finiteNumber?, hint]
      all_goals exact nofun
    | some n =>
      refine .inl ⟨.int n, _, ?_, rfl, (toInt?_eq_some_iff.1 hint).symm, hread⟩
      rw [finiteNumber?, hint]
      all_goals exact nofun

theorem exists_isRead_of_finiteNumber? {x : Binary64} {n : Number} (h : finiteNumber? x = some n) :
    ∃ q, IsRead n q := by
  obtain ⟨n', q, hn, -, hread⟩ | ⟨hnone, -⟩ := finiteNumber?_eq x
  · rw [h, Option.some_inj] at hn
    exact ⟨q, hn ▸ hread⟩
  · rw [h] at hnone
    cases hnone

/-- What every result of a function has, every member of a list of results has. -/
theorem forall_mem_of_mapM {α β : Type} {f : α → Option β} {P : β → Prop}
    (hf : ∀ a b, f a = some b → P b) {l : List α} {l' : List β} (h : l.mapM f = some l') :
    ∀ b ∈ l', P b := by
  induction l generalizing l' with
  | nil =>
    cases h
    exact nofun
  | cons a l ih =>
    rw [List.mapM_cons] at h
    simp only [Option.bind_eq_bind, Option.pure_def, Option.bind_eq_some_iff, Option.some_inj] at h
    obtain ⟨b, hb, bs, hbs, rfl⟩ := h
    exact List.forall_mem_cons.2 ⟨hf a b hb, ih hbs⟩

/-- The sides of a view box are read. -/
theorem exists_isRead_of_parseViewBox {value : Text} {box : ViewBox}
    (h : parseViewBox value = some box) :
    (∃ q, IsRead box.width q) ∧ ∃ q, IsRead box.height q := by
  unfold parseViewBox at h
  split at h
  · rename_i hread
    cases h
    have hall := forall_mem_of_mapM (P := fun n => ∃ q, IsRead n q) (fun f n hn => by
      obtain ⟨x, -, hx⟩ := Option.bind_eq_some_iff.1 hn
      exact exists_isRead_of_finiteNumber? hx) hread
    exact ⟨hall _ (by simp), hall _ (by simp)⟩
  · cases h

theorem exists_isRead_of_viewBox {tag : Text} {box : ViewBox}
    (h : (rootAttributes tag).viewBox = some box) :
    (∃ q, IsRead box.width q) ∧ ∃ q, IsRead box.height q := by
  obtain ⟨value, -, hvalue⟩ := Option.bind_eq_some_iff.1 h
  exact exists_isRead_of_parseViewBox hvalue

/-- An integer that is read is below the limit. -/
theorem abs_lt_limit_of_isRead {n : Int} {q : ℚ} (h : IsRead (.int n) q) : |(n : ℚ)| < limit := by
  obtain ⟨hvalue, hread⟩ := h
  rw [Number.value?, Option.some_inj] at hvalue
  rw [← not_le, ← nearest?_eq_none_iff, hvalue, hread]
  exact Option.some_ne_none q

/-! ## The derived side -/

theorem derivedSide_of_mul {side b a n : Number} (h : side.mul b = .ok n) : derivedSide side b a =
    (((n.div a).bind Number.floor).map Number.int).mapError LengthError.outOfRange := by
  rw [derivedSide, h]
  dsimp only [bind, Except.bind]
  cases n.div a with
  | error => rfl
  | ok x => cases hfloor : Number.floor x <;> simp [Except.map, Except.mapError, hfloor]

/-- The derived side of integers is the exact quotient, rounded and then rounded down. -/
theorem derivedSide_int_of_nearest? {s b a : Int} (ha : a ≠ 0) {r : ℚ}
    (hr : nearest? ((s * b : Int) / a) = some r) :
    derivedSide (.int s) (.int b) (.int a) = .ok (.int ⌊r⌋) := by
  obtain ⟨x, hdiv, hvalue⟩ := Number.exists_div_int ha hr
  rw [derivedSide_of_mul rfl, hdiv]
  show ((Number.floor x).map Number.int).mapError _ = _
  rw [Number.floor_of_value? hvalue]
  rfl

/-- **The derived side of integers** is the floor of the exact quotient, for a product of at most 53
bits. -/
theorem derivedSide_int {s b a : Int} (ha : a ≠ 0) (hlimit : |(a : ℚ)| < limit)
    (h : |s * b| < 2 ^ 53) :
    derivedSide (.int s) (.int b) (.int a) = .ok (.int ⌊(s * b / a : ℚ)⌋) := by
  obtain ⟨r, hnearest, hfloor⟩ := floor_eq_of_nearest?_div ha h hlimit
  rw [derivedSide_int_of_nearest? ha hnearest, hfloor, Int.cast_mul]

section
variable {root : RootAttributes} {box : ViewBox} {side : Number} (percentFallback : Bool)

/-- A literal width alone is kept, and the height is derived from it. -/
theorem ofRootAttributes_widthAlone (hwidth : parseOptionalLength root.width = .ok (some side))
    (hheight : parseOptionalLength root.height = .ok none)
    (hbox : root.viewBox.filter ViewBox.isUsable = some box) :
    ofRootAttributes root percentFallback = (derivedSide side box.height box.width).map
      fun n => some ⟨some (.number side), some (.number n), some box⟩ := by
  simp only [ofRootAttributes, hwidth, hheight, hbox, bind, Except.bind, pure, Except.pure]
  cases derivedSide side box.height box.width <;> rfl

/-- A literal height alone is kept, and the width is derived from it. -/
theorem ofRootAttributes_heightAlone (hwidth : parseOptionalLength root.width = .ok none)
    (hheight : parseOptionalLength root.height = .ok (some side))
    (hbox : root.viewBox.filter ViewBox.isUsable = some box) :
    ofRootAttributes root percentFallback = (derivedSide side box.width box.height).map
      fun n => some ⟨some (.number n), some (.number side), some box⟩ := by
  simp only [ofRootAttributes, hwidth, hheight, hbox, bind, Except.bind, pure, Except.pure]
  cases derivedSide side box.width box.height <;> rfl

end

theorem infer_of_rootTag? {text tag : Text} (percentFallback : Bool)
    (h : Markup.rootTag? text = some tag) :
    infer text percentFallback = ofRootAttributes (rootAttributes tag) percentFallback := by
  rw [infer, h]

/-- **A derived side is an exact floor.** Where a view box with integer sides gives the side that
is missing beside an integer, that side is the floor of the exact quotient. -/
theorem infer_derivedSide {text tag : Text} {box : ViewBox} {s w h : Int} (percentFallback : Bool)
    (htag : Markup.rootTag? text = some tag) (hbox : (rootAttributes tag).viewBox = some box)
    (hwidth : box.width = .int w) (hheight : box.height = .int h) (hw : w ≠ 0) (hh : h ≠ 0) :
    (parseOptionalLength (rootAttributes tag).width = .ok (some (.int s)) →
      parseOptionalLength (rootAttributes tag).height = .ok none → |s * h| < 2 ^ 53 →
        infer text percentFallback = .ok (some ⟨some (.number (.int s)),
          some (.number (.int ⌊(s * h / w : ℚ)⌋)), some box⟩)) ∧
    (parseOptionalLength (rootAttributes tag).width = .ok none →
      parseOptionalLength (rootAttributes tag).height = .ok (some (.int s)) → |s * w| < 2 ^ 53 →
        infer text percentFallback = .ok (some ⟨some (.number (.int ⌊(s * w / h : ℚ)⌋)),
          some (.number (.int s)), some box⟩)) := by
  obtain ⟨⟨p, hp⟩, q, hq⟩ := exists_isRead_of_viewBox hbox
  rw [hwidth] at hp
  rw [hheight] at hq
  have husable : (rootAttributes tag).viewBox.filter ViewBox.isUsable = some box := by
    rw [hbox, Option.filter_some_pos]
    simp [ViewBox.isUsable, hwidth, hheight, Number.isZero, hw, hh]
  constructor
  · intro hparsed hmissing hproduct
    rw [infer_of_rootTag? _ htag, ofRootAttributes_widthAlone _ hparsed hmissing husable, hwidth,
      hheight, derivedSide_int hw (abs_lt_limit_of_isRead hp) hproduct]
    rfl
  · intro hmissing hparsed hproduct
    rw [infer_of_rootTag? _ htag, ofRootAttributes_heightAlone _ hmissing hparsed husable, hwidth,
      hheight, derivedSide_int hh (abs_lt_limit_of_isRead hq) hproduct]
    rfl

/-- Ten by two thirds is rounded down to six, and minus seven by nine quarters to minus sixteen. -/
theorem infer_derivedSide_twoThirds :
    infer "<svg width='10' viewBox='0 0 3 2'/>".toList false =
        .ok (some ⟨some (.number (.int 10)), some (.number (.int 6)),
          some ⟨.int 0, .int 0, .int 3, .int 2⟩⟩) ∧
      infer "<svg height='-7' viewBox='0 0 9 4'/>".toList true =
        .ok (some ⟨some (.number (.int (-16))), some (.number (.int (-7))),
          some ⟨.int 0, .int 0, .int 9, .int 4⟩⟩) := by
  have hsix : ⌊((10 : Int) * (2 : Int) / (3 : Int) : ℚ)⌋ = 6 := by norm_num
  have hsixteen : ⌊((-7 : Int) * (9 : Int) / (4 : Int) : ℚ)⌋ = -16 := by norm_num
  constructor
  · rw [← hsix]
    have htag : Markup.rootTag? "<svg width='10' viewBox='0 0 3 2'/>".toList =
        some "<svg width='10' viewBox='0 0 3 2'/>".toList := by
      decide +kernel
    exact (infer_derivedSide (s := 10) (w := 3) (h := 2) false htag (by decide +kernel) rfl rfl
      (by decide) (by decide)).1 (by decide +kernel) (by decide +kernel) (by decide)
  · rw [← hsixteen]
    have htag : Markup.rootTag? "<svg height='-7' viewBox='0 0 9 4'/>".toList =
        some "<svg height='-7' viewBox='0 0 9 4'/>".toList := by
      decide +kernel
    exact (infer_derivedSide (s := -7) (w := 9) (h := 4) true htag (by decide +kernel) rfl rfl
      (by decide) (by decide)).2 (by decide +kernel) (by decide +kernel) (by decide)

end SvgAssets.Geometry
