/-
# SvgAssets.Proofs.Pipeline.RecordGeometry -- every record can be shown

The geometry of a root tag is inferred from two optional lengths, an optional view box and a choice
of the configuration, and the record drops a view box of no extent again. Whatever is missing,
malformed or zero, the sides of a record are both there or both missing, and where they do not say
how large the asset is there is a view box that does (`dimensions_of_result`).
-/
import SvgAssets.Pipeline.Source
import SvgAssets.Proofs.Pipeline.Origin

namespace SvgAssets

/-- An asset with these sides and this view box can be shown: two numbers, or the full size of the
surroundings with a view box, or, where that is not wanted, the view box alone. -/
inductive IsShowable (percentFallback : Bool) :
    Option Dimension → Option Dimension → Option ViewBox → Prop
  | numbers (width height : Number) (box : Option ViewBox) :
    IsShowable percentFallback (some (.number width)) (some (.number height)) box
  | full (box : ViewBox) : percentFallback = true →
    IsShowable percentFallback (some (.text "100%".toList)) (some (.text "100%".toList)) (some box)
  | bare (box : ViewBox) : percentFallback = false →
    IsShowable percentFallback none none (some box)

namespace IsShowable

variable {percentFallback : Bool} {width height : Option Dimension} {box : Option ViewBox}

theorem isSome_eq (h : IsShowable percentFallback width height box) :
    width.isSome = height.isSome := by
  cases h <;> rfl

theorem of_none (h : IsShowable percentFallback width height box) (hnone : width = none) :
    percentFallback = false ∧ box.isSome = true := by
  cases h with
  | numbers => cases hnone
  | full => cases hnone
  | bare _ hfallback => exact ⟨hfallback, rfl⟩

theorem of_some {side otherSide : Dimension} (h : IsShowable percentFallback width height box)
    (hwidth : width = some side) (hheight : height = some otherSide) :
    (∃ w l, side = .number w ∧ otherSide = .number l) ∨
      (side = .text "100%".toList ∧ otherSide = .text "100%".toList ∧ box.isSome = true) := by
  cases h with
  | numbers w l =>
    cases hwidth
    cases hheight
    exact .inl ⟨w, l, rfl, rfl⟩
  | full =>
    cases hwidth
    cases hheight
    exact .inr ⟨rfl, rfl, rfl⟩
  | bare => cases hwidth

end IsShowable

/-- What the lengths of a root tag ask of the sides: lengths that are written are kept, and a single
one has an integer beside it. -/
structure FollowLengths (width height : Option Number) (side otherSide : Option Dimension) :
    Prop where
  both : ∀ w l, width = some w → height = some l →
    side = some (.number w) ∧ otherSide = some (.number l)
  widthAlone : ∀ w, width = some w → height = none →
    side = some (.number w) ∧ ∃ n : Int, otherSide = some (.number (.int n))
  heightAlone : ∀ l, width = none → height = some l →
    otherSide = some (.number l) ∧ ∃ n : Int, side = some (.number (.int n))

namespace Geometry

theorem derivedSide_eq_ok {side b a n : Number} (h : derivedSide side b a = .ok n) :
    ∃ m : Int, n = .int m := by
  unfold derivedSide at h
  dsimp only at h
  split at h
  · cases h
    exact ⟨_, rfl⟩
  · cases h

/-- **The geometry of a root tag can be shown**, also when a view box without extent is left out,
and it keeps the lengths that the tag gives. -/
theorem isShowable_ofRootAttributes {root : RootAttributes} {percentFallback : Bool} {g : Geometry}
    (h : ofRootAttributes root percentFallback = .ok (some g)) :
    IsShowable percentFallback g.width g.height (g.viewBox.filter ViewBox.isUsable) ∧
      ∃ width height, parseOptionalLength root.width = .ok width ∧
        parseOptionalLength root.height = .ok height ∧
          FollowLengths width height g.width g.height := by
  unfold ofRootAttributes at h
  cases hwidth : parseOptionalLength root.width with
  | error e => rw [hwidth] at h; cases h
  | ok width =>
  cases hheight : parseOptionalLength root.height with
  | error e => rw [hwidth, hheight] at h; cases h
  | ok height =>
  rw [hwidth, hheight] at h
  -- A view box that is taken as the measure of a missing side has an extent, and is kept.
  have hkept (box : ViewBox) (hbox : root.viewBox.filter ViewBox.isUsable = some box) :
      (some box).filter ViewBox.isUsable = some box :=
    Option.filter_some_pos (Option.filter_eq_some_iff.1 hbox).2
  suffices hshown : IsShowable percentFallback g.width g.height
      (g.viewBox.filter ViewBox.isUsable) ∧ FollowLengths width height g.width g.height from
    ⟨hshown.1, width, height, rfl, rfl, hshown.2⟩
  simp only [bind, Except.bind, pure, Except.pure] at h
  split at h
  · cases h
    exact ⟨.numbers _ _ _, ⟨by grind, by grind, by grind⟩⟩
  · cases h
  · rename_i w box hbox
    split at h
    · cases h
    · rename_i side hside
      cases h
      obtain ⟨n, rfl⟩ := derivedSide_eq_ok hside
      exact ⟨.numbers _ _ _, ⟨by grind, by grind, by grind⟩⟩
  · rename_i l box hbox
    split at h
    · cases h
    · rename_i side hside
      cases h
      obtain ⟨n, rfl⟩ := derivedSide_eq_ok hside
      exact ⟨.numbers _ _ _, ⟨by grind, by grind, by grind⟩⟩
  · rename_i box hbox
    cases h
    refine ⟨?_, ⟨by grind, by grind, by grind⟩⟩
    cases percentFallback with
    | true =>
      show IsShowable true (some fullSize) (some fullSize) ((some box).filter _)
      rw [hkept box hbox]
      exact .full box rfl
    | false =>
      show IsShowable false none none ((some box).filter _)
      rw [hkept box hbox]
      exact .bare box rfl

/-- A document with a geometry has a root tag to infer it from. -/
theorem exists_rootTag_of_infer {s : Text} {percentFallback : Bool} {g : Geometry}
    (h : infer s percentFallback = .ok (some g)) :
    ∃ tag, Markup.rootTag? s = some tag ∧
      ofRootAttributes (rootAttributes tag) percentFallback = .ok (some g) := by
  unfold infer at h
  split at h
  · cases h
  · rename_i tag htag
    exact ⟨tag, htag, h⟩

end Geometry

namespace Pipeline

open SvgAssets.Geometry

/-- **Every record can be shown.** Its sides are both there or both missing. If they are missing,
the full size of the surroundings is not wanted, and there is a view box. If they are there, they
are two numbers, or both the full size, and then there is a view box. A view box of a record has a
width and a height other than zero. And the sides are what the root tag asks for: two lengths that
it gives are the sides, whatever its view box is, and a single one is that side, beside an
integer. -/
theorem dimensions_of_result {config : Config} {source : Source}
    {a : Attempt StageFailure Notice Progress} (hprocess : builtIn.process config source = .ok a)
    {r : AssetRecord} (hresult : a.state.result? = some r) :
    (r.width.isSome = r.height.isSome) ∧
      (r.width = none → config.percentFallback = false ∧ r.viewBox.isSome = true) ∧
      (∀ side otherSide, r.width = some side → r.height = some otherSide →
        (∃ w l, side = .number w ∧ otherSide = .number l) ∨
          (side = .text "100%".toList ∧ otherSide = .text "100%".toList ∧
            r.viewBox.isSome = true)) ∧
      (∀ box, r.viewBox = some box → box.width.isZero = false ∧ box.height.isZero = false) ∧
      ∃ tag width height, Markup.rootTag? source.svg = some tag ∧
        parseOptionalLength (rootAttributes tag).width = .ok width ∧
        parseOptionalLength (rootAttributes tag).height = .ok height ∧
        FollowLengths width height r.width r.height := by
  obtain ⟨g, css, hmade⟩ := exists_isMadeFrom hprocess hresult
  obtain ⟨tag, htag, hroot⟩ := exists_rootTag_of_infer hmade.geometry
  obtain ⟨hshown, width, height, hwidth, hheight, hfollow⟩ := isShowable_ofRootAttributes hroot
  have hsides : r.width = g.width ∧ r.height = g.height ∧
      r.viewBox = g.viewBox.filter ViewBox.isUsable := by
    rw [hmade.record]
    exact ⟨rfl, rfl, rfl⟩
  have husable (box : ViewBox) (hbox : r.viewBox = some box) :
      box.width.isZero = false ∧ box.height.isZero = false := by
    rw [hsides.2.2] at hbox
    simpa [ViewBox.isUsable] using (Option.filter_eq_some_iff.1 hbox).2
  rw [← hsides.1, ← hsides.2.1, ← hsides.2.2] at hshown
  rw [← hsides.1, ← hsides.2.1] at hfollow
  exact ⟨hshown.isSome_eq, hshown.of_none, fun _ _ hwidth hheight => hshown.of_some hwidth hheight,
    husable, tag, width, height, htag, hwidth, hheight, hfollow⟩

/-- An image that gives its height, in pixels, and a view box. -/
def tallMarkup : Text :=
  "<svg height=\"10px\" viewBox=\"0,0 3 4\"><g/></svg>".toList

theorem dimensions_of_result_height_alone :
    ∃ a r, builtIn.process {} (.ofText "svg/a.svg".toList tallMarkup "h1".toList) = .ok a ∧
      a.state.result? = some r ∧ r.viewBox = some ⟨.int 0, .int 0, .int 3, .int 4⟩ ∧
      r.height = some (.number (.int 10)) ∧ r.width = some (.number (.int 7)) ∧
      ∃ n : Int, r.width = some (.number (.int n)) := by
  obtain ⟨a, r, hprocess, hresult, hrecord⟩ :=
    exists_result_of_any (x := builtIn.process {} (.ofText "svg/a.svg".toList tallMarkup
      "h1".toList)) (p := fun r => r.viewBox == some ⟨.int 0, .int 0, .int 3, .int 4⟩ &&
        r.width == some (.number (.int 7))) (by decide +kernel)
  rw [Bool.and_eq_true, beq_iff_eq, beq_iff_eq] at hrecord
  obtain ⟨-, -, -, -, tag, width, height, htag, hwidth, hheight, hfollow⟩ :=
    dimensions_of_result hprocess hresult
  have htag' : Markup.rootTag? tallMarkup =
      some "<svg height=\"10px\" viewBox=\"0,0 3 4\">".toList := by
    decide +kernel
  cases htag.symm.trans htag'
  have hheight' : parseOptionalLength (rootAttributes
      "<svg height=\"10px\" viewBox=\"0,0 3 4\">".toList).height = .ok (some (.int 10)) := by
    decide +kernel
  have hwidth' : parseOptionalLength (rootAttributes
      "<svg height=\"10px\" viewBox=\"0,0 3 4\">".toList).width = .ok none := by
    decide +kernel
  cases hheight.symm.trans hheight'
  cases hwidth.symm.trans hwidth'
  obtain ⟨hgiven, hderived⟩ := hfollow.heightAlone _ rfl rfl
  exact ⟨a, r, hprocess, hresult, hrecord.1, hgiven, hrecord.2, hderived⟩

end Pipeline

end SvgAssets
