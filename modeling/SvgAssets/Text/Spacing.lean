/-
# SvgAssets.Text.Spacing -- removing superfluous space

Two ways to make a text shorter without touching its other characters: one mark for every run of
characters of a class, such as one space for every run of white space, and no space beside marks.
-/
import SvgAssets.Text.Blank

namespace SvgAssets.Text

/-- `s` with every run of characters satisfying `p` replaced by one `mark`. The flag tells whether
the character in front of `s` satisfied `p`. -/
def collapseRuns (p : Char → Bool) (mark : Char) (inRun : Bool) : Text → Text
  | [] => []
  | c :: s =>
    if p c then
      if inRun then collapseRuns p mark true s else mark :: collapseRuns p mark true s
    else c :: collapseRuns p mark false s

/-- `s` with every run of white space replaced by one space. -/
def squeezeBlanks (s : Text) : Text := collapseRuns isBlank ' ' false s

/-- Whether the first character of `s` that is no space is a mark. -/
def leadsTo (isMark isSpace : Char → Bool) (s : Text) : Bool :=
  match s.dropWhile isSpace with
  | [] => false
  | c :: _ => isMark c

/-- `s` without the space in front of and behind marks. The flag tells whether `s` stands behind a
mark. -/
def tighten (isMark isSpace : Char → Bool) (behindMark : Bool) : Text → Text
  | [] => []
  | c :: s =>
    if isMark c then c :: tighten isMark isSpace true s
    else if isSpace c then
      if behindMark then tighten isMark isSpace true s
      else if leadsTo isMark isSpace s then tighten isMark isSpace false s
      else c :: tighten isMark isSpace false s
    else c :: tighten isMark isSpace false s

end SvgAssets.Text
