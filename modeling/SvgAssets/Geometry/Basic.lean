/-
# SvgAssets.Geometry.Basic -- width, height and view box

The geometry of an asset: its two sides, each a number or a text such as `100%`, and its view box.
Any of the three may be missing.
-/
import SvgAssets.Number

namespace SvgAssets

/-- One side of an asset. -/
inductive Dimension where
  | number (n : Number)
  | text (t : Text)
  deriving DecidableEq

/-- The rectangle of user space that an asset shows. -/
structure ViewBox where
  minX : Number
  minY : Number
  width : Number
  height : Number
  deriving DecidableEq

/-- The side lengths are not zero. -/
def ViewBox.isUsable (b : ViewBox) : Bool := !b.width.isZero && !b.height.isZero

/-- The geometry of an asset. -/
structure Geometry where
  width : Option Dimension
  height : Option Dimension
  viewBox : Option ViewBox
  deriving DecidableEq

end SvgAssets
