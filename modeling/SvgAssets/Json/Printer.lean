/-
# SvgAssets.Json.Printer -- values as JSON text

Lists and tables are written on several lines, each level indented by two more spaces, and empty
ones on one line. The text is ASCII: any other character is escaped by its UTF-16 units in four
hexadecimal digits each. What is no number, and the infinities, have names of their own.
-/
import SvgAssets.Value

namespace SvgAssets.Json

/-- A number below `2 ^ 16` in four hexadecimal digits. -/
def hexUnit (n : Nat) : Text :=
  [n / 4096 % 16, n / 256 % 16, n / 16 % 16, n % 16].map Nat.digitChar

/-- The UTF-16 units of a character. -/
def units (c : Char) : List Nat :=
  let n := c.toNat
  if n < 0x10000 then [n]
  else [0xd800 + (n - 0x10000) / 0x400, 0xdc00 + (n - 0x10000) % 0x400]

/-- A character between quotes. -/
def escapeChar (c : Char) : Text :=
  if c = '"' then ['\\', '"']
  else if c = '\\' then ['\\', '\\']
  else if c = '\n' then ['\\', 'n']
  else if c = '\r' then ['\\', 'r']
  else if c = '\t' then ['\\', 't']
  else if c = '\x0c' then ['\\', 'f']
  else if c = '\x08' then ['\\', 'b']
  else if ' ' ≤ c ∧ c ≤ '~' then [c]
  else (units c).flatMap fun u => '\\' :: 'u' :: hexUnit u

/-- A text in quotes. -/
def quote (s : Text) : Text := '"' :: s.flatMap escapeChar ++ ['"']

/-- A number. -/
def number : Number → Text
  | .float (.nan _) => "NaN".toList
  | .float (.infinity false) => "Infinity".toList
  | .float (.infinity true) => "-Infinity".toList
  | n => n.text

/-- A new line at a level. -/
def newLine (level : Nat) : Text := '\n' :: List.replicate (2 * level) ' '

mutual

/-- A value at a level. -/
def print (level : Nat) : Value → Text
  | .null => "null".toList
  | .bool true => "true".toList
  | .bool false => "false".toList
  | .number n => number n
  | .text t => quote t
  | .list [] => ['[', ']']
  | .list (x :: rest) =>
    '[' :: newLine (level + 1) ++ printItems (level + 1) (x :: rest) ++ newLine level ++ [']']
  | .table [] => ['\x7b', '\x7d']
  | .table (x :: rest) =>
    '\x7b' :: newLine (level + 1) ++ printMembers (level + 1) (x :: rest) ++ newLine level ++
      ['\x7d']

/-- The items of a list. -/
def printItems (level : Nat) : List Value → Text
  | [] => []
  | [x] => print level x
  | x :: y :: rest => print level x ++ ',' :: newLine level ++ printItems level (y :: rest)

/-- The members of a table. -/
def printMembers (level : Nat) : List (Text × Value) → Text
  | [] => []
  | [(name, x)] => quote name ++ [':', ' '] ++ print level x
  | (name, x) :: y :: rest =>
    quote name ++ [':', ' '] ++ print level x ++ ',' :: newLine level ++
      printMembers level (y :: rest)

end

end SvgAssets.Json
