/-
# SvgAssets.Proofs.TypeScript.LiteralGrammar -- reading a literal

The grammar of literals: quoted texts in which a backslash takes away or gives a meaning, numbers,
the words for truth values and for null, lists between brackets and objects between braces, whose
names are quoted or are identifiers. White space in front of a token does not count, and a comma may
stand behind the last item. `readLiteral` reads a whole text as one literal, and gives nothing where
the text is none.

The readers descend into brackets and braces, and take one step of their fuel for each level and
each item.
-/
import SvgAssets.Number.Reading
import SvgAssets.TypeScript.Literal

namespace SvgAssets.TypeScript

/-! ## Tokens -/

/-- White space and line ends, as ranges of code points. -/
def spaceRanges : List (Nat × Nat) :=
  [(0x9, 0xd), (0x20, 0x20), (0xa0, 0xa0), (0x1680, 0x1680), (0x2000, 0x200a), (0x2028, 0x2029),
    (0x202f, 0x202f), (0x205f, 0x205f), (0x3000, 0x3000), (0xfeff, 0xfeff)]

/-- White space between tokens. -/
def isSpace (c : Char) : Bool := Text.inRanges spaceRanges c.toNat

/-- What follows the white space at the start of `s`. -/
def skipSpace (s : Text) : Text := s.dropWhile isSpace

/-- What follows the token `c` at the start of `s`. -/
def token? (c : Char) (s : Text) : Option Text := Text.after? [c] (skipSpace s)

/-! ## Words -/

/-- The word characters that no identifier may hold, as ranges of code points: numbers that are no
decimal digits. -/
def numberFormRanges : List (Nat × Nat) :=
  [(0xb2, 0xb3), (0xb9, 0xb9), (0xbc, 0xbe), (0x9f4, 0x9f9), (0xb72, 0xb77), (0xbf0, 0xbf2),
    (0xc78, 0xc7e), (0xd58, 0xd5e), (0xd70, 0xd78), (0xf2a, 0xf33), (0x1372, 0x137c),
    (0x17f0, 0x17f9), (0x2070, 0x2070), (0x2074, 0x2079), (0x2080, 0x2089), (0x2150, 0x215f),
    (0x2189, 0x2189), (0x2460, 0x249b), (0x24ea, 0x24ff), (0x2776, 0x2793), (0x2cfd, 0x2cfd),
    (0x2e2f, 0x2e2f), (0x3192, 0x3195), (0x3220, 0x3229), (0x3248, 0x324f), (0x3251, 0x325f),
    (0x3280, 0x3289), (0x32b1, 0x32bf), (0xa830, 0xa835), (0x10107, 0x10133),
    (0x10175, 0x10178), (0x1018a, 0x1018b), (0x102e1, 0x102fb), (0x10320, 0x10323),
    (0x10858, 0x1085f), (0x10879, 0x1087f), (0x108a7, 0x108af), (0x108fb, 0x108ff),
    (0x10916, 0x1091b), (0x109bc, 0x109bd), (0x109c0, 0x109cf), (0x109d2, 0x109ff),
    (0x10a40, 0x10a48), (0x10a7d, 0x10a7e), (0x10a9d, 0x10a9f), (0x10aeb, 0x10aef),
    (0x10b58, 0x10b5f), (0x10b78, 0x10b7f), (0x10ba9, 0x10baf), (0x10cfa, 0x10cff),
    (0x10e60, 0x10e7e), (0x10f1d, 0x10f26), (0x10f51, 0x10f54), (0x10fc5, 0x10fcb),
    (0x11052, 0x11065), (0x111e1, 0x111f4), (0x1173a, 0x1173b), (0x118ea, 0x118f2),
    (0x11c5a, 0x11c6c), (0x11fc0, 0x11fd4), (0x16b5b, 0x16b61), (0x16e80, 0x16e96),
    (0x1d2e0, 0x1d2f3), (0x1d360, 0x1d378), (0x1e8c7, 0x1e8cf), (0x1ec71, 0x1ecab),
    (0x1ecad, 0x1ecaf), (0x1ecb1, 0x1ecb4), (0x1ed01, 0x1ed2d), (0x1ed2f, 0x1ed3d),
    (0x1f100, 0x1f10c)]

/-- Characters that an identifier holds behind its first one. -/
def isIdentifierPart (c : Char) : Bool :=
  isNameChar c && !Text.inRanges numberFormRanges c.toNat

/-- An identifier. -/
def isIdentifier : Text → Bool
  | [] => false
  | c :: s => isNameStart c && s.all isIdentifierPart

/-- The longest identifier at the start of `s`, and what follows it. -/
def readWord? : Text → Option (Text × Text)
  | [] => none
  | c :: s =>
    if isNameStart c then some (c :: s.takeWhile isIdentifierPart, s.dropWhile isIdentifierPart)
    else none

/-- The words that are values. -/
def keywords : List (Text × Value) :=
  [("null".toList, .null), ("true".toList, .bool true), ("false".toList, .bool false)]

/-! ## Texts -/

/-- The character that a backslash and `c` stand for. Codes of characters and line continuations are
left out. -/
def escapeValue? (c : Char) : Option Char :=
  if c = 'n' then some '\n'
  else if c = 'r' then some '\r'
  else if c = 't' then some '\t'
  else if c = 'b' then some '\x08'
  else if c = 'f' then some '\x0c'
  else if c = 'v' then some '\x0b'
  else if c.isDigit || ['x', 'u', '\n', '\r', '\u2028', '\u2029'].contains c then none
  else some c

/-- The text up to the closing `quote`, and what follows it. -/
def readQuoted (quote : Char) : Text → Option (Text × Text)
  | [] => none
  | c :: s =>
    if c = quote then some ([], s)
    else if c = '\\' then
      match s with
      | [] => none
      | d :: s =>
        match escapeValue? d with
        | some c => (readQuoted quote s).map fun (t, rest) => (c :: t, rest)
        | none => none
    else if c = '\n' ∨ c = '\r' then none
    else (readQuoted quote s).map fun (t, rest) => (c :: t, rest)

/-- Characters that texts are quoted with. -/
def isQuote (c : Char) : Bool := c == '\'' || c == '"'

/-! ## Numbers -/

/-- Characters of numbers. -/
def isNumeralChar (c : Char) : Bool :=
  c.isDigit || c == '.' || c == 'e' || c == 'E' || c == '+' || c == '-'

/-- Characters that an integer is written without. -/
def isMark (c : Char) : Bool := c == '.' || c == 'e' || c == 'E'

/-- The number that a numeral stands for: an integer where it has neither point nor exponent. In
front of another digit there is no zero. -/
def numberOf? (t : Text) : Option Number :=
  match Text.readNumeral t with
  | some (n, []) =>
    if n.whole.head? = some 0 ∧ n.whole ≠ [0] then none
    else if t.any isMark then some (.float n.toBinary64)
    else
      let magnitude : Int := Text.decimalValue n.whole
      some (.int (if n.negative then -magnitude else magnitude))
  | _ => none

/-! ## Values -/

/-- A text, a word or a number at the start of `s`, and what follows it. -/
def readScalar (s : Text) : Option (Value × Text) :=
  match s with
  | [] => none
  | c :: t =>
    if isQuote c then (readQuoted c t).map fun (text, rest) => (.text text, rest)
    else if isNameStart c then
      (readWord? s).bind fun (word, rest) => (keywords.lookup word).map fun v => (v, rest)
    else
      (numberOf? (s.takeWhile isNumeralChar)).map fun n =>
        (.number n, s.dropWhile isNumeralChar)

/-- The name of a member at the start of `s`, and what follows it. -/
def readName (s : Text) : Option (Text × Text) :=
  match skipSpace s with
  | [] => none
  | c :: t => if isQuote c then readQuoted c t else readWord? (c :: t)

/-- What stands behind the item `x` of a list or an object: a comma and `more` items, or the closing
bracket. -/
def readMore {α : Type} (close : Char) (more : Text → Option (List α × Text)) (x : α) (s : Text) :
    Option (List α × Text) :=
  match token? ',' s with
  | some t => (more t).map fun (items, rest) => (x :: items, rest)
  | none => (token? close s).map fun rest => ([x], rest)

mutual

/-- A value at the start of a text, and what follows it. -/
def readValue : Nat → Text → Option (Value × Text)
  | 0, _ => none
  | fuel + 1, s =>
    match token? '[' s with
    | some t => (readItems fuel t).map fun (items, rest) => (.list items, rest)
    | none =>
      match token? '\x7b' s with
      | some t => (readMembers fuel t).map fun (entries, rest) => (.table entries, rest)
      | none => readScalar (skipSpace s)

/-- The items of a list up to the closing bracket, and what follows it. -/
def readItems : Nat → Text → Option (List Value × Text)
  | 0, _ => none
  | fuel + 1, s =>
    match token? ']' s with
    | some rest => some ([], rest)
    | none => do
      let (x, t) ← readValue fuel s
      readMore ']' (readItems fuel) x t

/-- The members of an object up to the closing brace, and what follows it. -/
def readMembers : Nat → Text → Option (List (Text × Value) × Text)
  | 0, _ => none
  | fuel + 1, s =>
    match token? '\x7d' s with
    | some rest => some ([], rest)
    | none => do
      let (name, t) ← readName s
      let t ← token? ':' t
      let (x, t) ← readValue fuel t
      readMore '\x7d' (readMembers fuel) (name, x) t

end

/-- The value that a text is a literal of. -/
def readLiteral (s : Text) : Option Value :=
  match readValue s.length s with
  | some (v, rest) => if skipSpace rest = [] then some v else none
  | none => none

end SvgAssets.TypeScript
