/-
# SvgAssets.Text.Blank -- white space

One set of characters counts as white space everywhere in the library: the Unicode characters
whose bidirectional class is a separator or that are of category `Zs`. It is larger than the set
that `Char.isWhitespace` knows, and it holds the four information separators, which XML does not
count as white space.
-/
import SvgAssets.Text.Basic

namespace SvgAssets.Text

/-- Whether `n` lies in one of the closed ranges. -/
def inRanges (ranges : List (Nat × Nat)) (n : Nat) : Bool :=
  ranges.any fun (low, high) => low ≤ n && n ≤ high

/-- The white space characters, as ranges of code points. -/
def blankRanges : List (Nat × Nat) :=
  [(0x9, 0xd), (0x1c, 0x20), (0x85, 0x85), (0xa0, 0xa0), (0x1680, 0x1680), (0x2000, 0x200a),
    (0x2028, 0x2029), (0x202f, 0x202f), (0x205f, 0x205f), (0x3000, 0x3000)]

/-- White space. -/
def isBlank (c : Char) : Bool := inRanges blankRanges c.toNat

/-- `s` without the white space at its start. -/
def trimStart (s : Text) : Text := s.dropWhile isBlank

/-- `s` without the white space at its end. -/
def trimEnd (s : Text) : Text := dropEndWhile isBlank s

/-- `s` without the white space at both of its ends. -/
def trim (s : Text) : Text := dropAround isBlank s

end SvgAssets.Text
