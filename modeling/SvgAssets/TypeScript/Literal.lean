/-
# SvgAssets.TypeScript.Literal -- values as TypeScript writes them

A text is written between single quotes; backslashes, single quotes and line ends in it are escaped,
and undoing the escapes gives the text back (`unescape_escape`). A table is an object literal whose
names stand without quotes where they are identifiers. The type of a table of types lists its names
as optional members.
-/
import SvgAssets.Text.WordChar
import SvgAssets.Value

namespace SvgAssets.TypeScript

/-! ## Texts -/

/-- A character between quotes. -/
def escapeChar (c : Char) : Text :=
  if c = '\\' then ['\\', '\\']
  else if c = '\'' then ['\\', '\'']
  else if c = '\n' then ['\\', 'n']
  else if c = '\r' then ['\\', 'r']
  else [c]

/-- A text between quotes. -/
def escape (s : Text) : Text := s.flatMap escapeChar

/-- The character that stands behind a backslash. -/
def escaped? (c : Char) : Option Char :=
  if c = '\\' then some '\\'
  else if c = '\'' then some '\''
  else if c = 'n' then some '\n'
  else if c = 'r' then some '\r'
  else none

/-- The text that is written between quotes. A quote or a line end alone is not possible there. -/
def unescape : Text → Option Text
  | [] => some []
  | ['\\'] => none
  | '\\' :: c :: s => do return (← escaped? c) :: (← unescape s)
  | c :: s => if c = '\'' ∨ c = '\n' ∨ c = '\r' then none else (c :: ·) <$> unescape s

theorem unescape_escape (s : Text) : unescape (escape s) = some s := by
  induction s with
  | nil => rfl
  | cons c s ih =>
    rw [escape, List.flatMap_cons, ← escape, escapeChar]
    split
    · subst c; simp [unescape, escaped?, ih]
    · split
      · subst c; simp [unescape, escaped?, ih]
      · split
        · subst c; simp [unescape, escaped?, ih]
        · split
          · subst c; simp [unescape, escaped?, ih]
          · rename_i h₁ h₂ h₃ h₄
            simp [unescape, h₁, h₂, h₃, h₄, ih]

/-- A text as a literal. -/
def quote (s : Text) : Text := '\'' :: escape s ++ ['\'']

/-! ## Names of members -/

/-- Characters that an identifier may begin with. -/
def isNameStart (c : Char) : Bool := c.isAlpha || c == '_' || c == '$'

/-- Characters that an identifier may go on with. -/
def isNameChar (c : Char) : Bool := Text.isWordChar c || c == '$'

/-- Whether a name may stand without quotes. One line end behind it does not count. -/
def isBareName : Text → Bool
  | [] => false
  | c :: s => isNameStart c && (if s.getLast? = some '\n' then s.dropLast else s).all isNameChar

/-- The name of a member. -/
def memberName (name : Text) : Text := if isBareName name then name else quote name

/-! ## Values and types -/

mutual

/-- A value as a literal. -/
def literal : Value → Text
  | .null => ['n', 'u', 'l', 'l']
  | .bool true => ['t', 'r', 'u', 'e']
  | .bool false => ['f', 'a', 'l', 's', 'e']
  | .number n => n.text
  | .text t => quote t
  | .list items => '[' :: literalItems items ++ [']']
  | .table entries => '\x7b' :: literalMembers entries ++ ['\x7d']

/-- The items of a list, separated by commas. -/
def literalItems : List Value → Text
  | [] => []
  | [x] => literal x
  | x :: y :: rest => literal x ++ [',', ' '] ++ literalItems (y :: rest)

/-- The members of an object, separated by commas. -/
def literalMembers : List (Text × Value) → Text
  | [] => []
  | [(name, x)] => memberName name ++ [':', ' '] ++ literal x
  | (name, x) :: y :: rest =>
    memberName name ++ [':', ' '] ++ literal x ++ [',', ' '] ++ literalMembers (y :: rest)

end

mutual

/-- A table of types as an object type. -/
def interfaceBody (entries : List (Text × Value)) : Text :=
  '\x7b' :: interfaceMembers entries ++ ['\x7d']

/-- The members of an object type, separated by semicolons. -/
def interfaceMembers : List (Text × Value) → Text
  | [] => []
  | [(name, x)] => memberName name ++ ['?', ':', ' '] ++ memberType x
  | (name, x) :: y :: rest =>
    memberName name ++ ['?', ':', ' '] ++ memberType x ++ [';', ' '] ++
      interfaceMembers (y :: rest)

/-- The type of a member: that of a table is an object type. -/
def memberType : Value → Text
  | .table entries => interfaceBody entries
  | v => v.plain

end

end SvgAssets.TypeScript
