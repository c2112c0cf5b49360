/-
# SvgAssets.Text.LineBreak -- the three ways to end a line

A line ends with a line feed, with a carriage return, or with both in this order. Text that is read
from a file has one kind of line break only; markup has none at all.
-/
import SvgAssets.Text.Basic

namespace SvgAssets.Text

/-- `s` with a line feed for every line break. -/
def unifyLineBreaks : Text → Text
  | [] => []
  | '\r' :: '\n' :: s => '\n' :: unifyLineBreaks s
  | '\r' :: s => '\n' :: unifyLineBreaks s
  | c :: s => c :: unifyLineBreaks s

/-- Whether a character is part of line breaks. -/
def isLineBreak (c : Char) : Bool := c == '\n' || c == '\r'

/-- `s` without its line breaks. -/
def dropLineBreaks (s : Text) : Text := s.filter fun c => !isLineBreak c

/-- It makes no difference which kind of line break is dropped. -/
theorem dropLineBreaks_unifyLineBreaks (s : Text) :
    dropLineBreaks (unifyLineBreaks s) = dropLineBreaks s := by
  fun_induction unifyLineBreaks s with
  | case1 => rfl
  | case2 s ih => simpa [dropLineBreaks, isLineBreak] using ih
  | case3 s _ ih => simpa [dropLineBreaks, isLineBreak] using ih
  | case4 c s _ hc ih =>
    simp only [dropLineBreaks, List.filter_cons] at ih ⊢
    rw [ih]

end SvgAssets.Text
