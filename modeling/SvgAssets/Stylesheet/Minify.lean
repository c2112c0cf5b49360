/-
# SvgAssets.Stylesheet.Minify -- style sheets without superfluous characters

Minifying drops comments, makes one space of every run of white space, drops the space beside
punctuation, the semicolon in front of a closing brace, and the unit behind a zero.
-/
import SvgAssets.Text.Pattern
import SvgAssets.Text.Spacing
import SvgAssets.Text.WordChar

namespace SvgAssets.Stylesheet

open Text

/-- Comments as a kind of token. -/
def comment : Pattern Text := delimited ['/', '*'] ['*', '/'] (by decide)

/-- Punctuation that needs no white space around it. -/
def isMark (c : Char) : Bool :=
  c == '\x7b' || c == '\x7d' || c == ':' || c == ';' || c == ',' || c == '~' || c == '>' ||
    c == '+' || c == '!'

/-- The units that a zero does not need. -/
def isZeroUnit (a b : Char) : Bool :=
  [('p', 'x'), ('e', 'm'), ('p', 't')].contains (a.toLower, b.toLower)

/-- Whether a zero behind `prev` begins a number. -/
def atNumberStart (prev : Option Char) : Bool :=
  match prev with
  | none => false
  | some c => c == ':' || isBlank c

/-- Whether a word ends in front of `s`. -/
def atWordEnd : Text → Bool
  | [] => true
  | c :: _ => !isWordChar c

/-- `s` without the units behind zeros, where `prev` is the character in front of `s`. -/
def dropZeroUnits (prev : Option Char) : Text → Text
  | '0' :: a :: b :: s =>
    if atNumberStart prev && isZeroUnit a b && atWordEnd s then '0' :: dropZeroUnits (some b) s
    else '0' :: dropZeroUnits (some '0') (a :: b :: s)
  | c :: s => c :: dropZeroUnits (some c) s
  | [] => []

/-- The minified style sheet. -/
def minify (s : Text) : Text :=
  let s := squeezeBlanks (comment.erase s)
  let s := replaceAll ';' ['\x7d'] ['\x7d'] (tighten isMark isBlank false s)
  trim (dropZeroUnits none s)

end SvgAssets.Stylesheet
