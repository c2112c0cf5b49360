/-
# SvgAssets.Naming -- names for files, symbols and selectors

A generated symbol is in Pascal case, a selector and a style scope are in kebab case, and a file
is named by the word characters of the name of its source.
-/
import SvgAssets.Text.Casing
import SvgAssets.Text.Digit
import SvgAssets.Text.Spacing
import SvgAssets.Text.WordChar

namespace SvgAssets.Naming

open Text

/-- Characters that separate words: white space, underscore, hyphen and full stop. -/
def isWordSeparator (c : Char) : Bool := isBlank c || c == '_' || c == '-' || c == '.'

/-- `s` without separators, each word behind one beginning in upper case. The flag tells whether
`s` stands behind a separator. -/
def joinWords (behindSeparator : Bool) : Text → Text
  | [] => []
  | c :: s =>
    if isWordSeparator c then joinWords true s
    else (if behindSeparator then upperChar c else [c]) ++ joinWords false s

/-- `s` with its first character in lower case. -/
def lowerFirst : Text → Text
  | [] => []
  | c :: s => lower [c] ++ s

/-- `s` with its first character in upper case. -/
def upperFirst : Text → Text
  | [] => []
  | c :: s => upperChar c ++ s

/-- `my-icon_name` as `myIconName`. -/
def camelCase (s : Text) : Text := lowerFirst (joinWords false (trim s))

/-- `my-icon_name` as `MyIconName`. -/
def pascalCase (s : Text) : Text := upperFirst (camelCase s)

/-- Small ASCII letters and ASCII digits. -/
def isLowerOrDigit (c : Char) : Bool := c.isLower || c.isDigit

/-- `s` with a hyphen between a small letter or digit and a capital letter behind it. -/
def hyphenateWords : Text → Text
  | a :: b :: s =>
    if isLowerOrDigit a && b.isUpper then a :: '-' :: hyphenateWords (b :: s)
    else a :: hyphenateWords (b :: s)
  | s => s

/-- `s` without the hyphens at both of its ends. -/
def trimHyphens (s : Text) : Text := dropAround (· == '-') s

/-- `myIcon name` as `my-icon-name`, in ASCII letters and digits. -/
def kebabCase (s : Text) : Text :=
  lower (trimHyphens (collapseRuns (fun c => !c.isAlphanum) '-' false (hyphenateWords s)))

/-- The name of an asset, from the name of its file: word characters and hyphens, and `svg` when
there are none. -/
def safeName (stem : Text) : Text :=
  let name := trimHyphens (collapseRuns (fun c => !(isWordChar c || c == '-')) '-' false stem)
  if name.isEmpty then ['s', 'v', 'g'] else name

/-- The symbol of an asset, in Pascal case. It never begins with a digit. -/
def symbolName (name : Text) : Text :=
  match pascalCase name with
  | [] => ['S', 'v', 'g']
  | c :: s => if isDigit c then ['S', 'v', 'g'] ++ c :: s else c :: s

end SvgAssets.Naming
