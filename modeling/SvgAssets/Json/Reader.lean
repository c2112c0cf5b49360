/-
# SvgAssets.Json.Reader -- values from JSON text

Reading stops at the first fault, and the fault is reported with its line, its column and its
offset. Besides what JSON allows, what is no number and the infinities are read under their names. A
table with a repeated name has the last value of the name at its first place.
-/
import SvgAssets.Entries
import SvgAssets.Text.Pattern
import SvgAssets.Value

namespace SvgAssets.Json

open Text

/-! ## Faults -/

/-- What is wrong at a place of a text. -/
inductive Reason where
  | expectedValue
  | expectedName
  | expectedColon
  | expectedComma
  | invalidEscape
  | invalidUnicodeEscape
  | unterminated
  | controlCharacter
  | byteOrderMark
  | extraData
  deriving DecidableEq

/-- The wording of a reason. -/
def Reason.message : Reason → String
  | .expectedValue => "Expecting value"
  | .expectedName => "Expecting property name enclosed in double quotes"
  | .expectedColon => "Expecting ':' delimiter"
  | .expectedComma => "Expecting ',' delimiter"
  | .invalidEscape => "Invalid \\escape"
  | .invalidUnicodeEscape => "Invalid \\uXXXX escape"
  | .unterminated => "Unterminated string starting at"
  | .controlCharacter => "Invalid control character at"
  | .byteOrderMark => "Unexpected UTF-8 BOM (decode using utf-8-sig)"
  | .extraData => "Extra data"

/-- Why reading stopped. -/
inductive Stop where
  /-- There is a fault in front of the last `left` characters. -/
  | fault (reason : Reason) (left : Nat)
  | integerTooLong (e : IntegerTooLong)
  deriving DecidableEq

/-! ## Texts -/

/-- White space between the parts of a text. -/
def isSpace (c : Char) : Bool := c == ' ' || c == '\t' || c == '\n' || c == '\r'

/-- `s` without white space in front. -/
def skipSpace (s : Text) : Text := s.dropWhile isSpace

/-- The value of a hexadecimal digit. -/
def hexDigit? (c : Char) : Option Nat :=
  if c.isDigit then some (c.toNat - '0'.toNat)
  else if 'a' ≤ c ∧ c ≤ 'f' then some (c.toNat - 'a'.toNat + 10)
  else if 'A' ≤ c ∧ c ≤ 'F' then some (c.toNat - 'A'.toNat + 10)
  else none

/-- The unit that the first four characters of a text write. -/
def unit? (s : Text) : Option Nat :=
  match s with
  | a :: b :: c :: d :: _ => do
    return (((← hexDigit? a) * 16 + (← hexDigit? b)) * 16 + (← hexDigit? c)) * 16 + (← hexDigit? d)
  | _ => none

/-- The character of a unit; half of a pair alone is none. -/
def charOfUnit (n : Nat) : Char := if n.isValidChar then Char.ofNat n else '\ufffd'

/-- The character that is escaped by its unit, or by the two units of a pair, and the number of
characters that write it. `s` begins behind the first mark. -/
def readUnits (s : Text) : Except Stop (Char × Nat) :=
  if s.length < 5 then .error (.fault .invalidUnicodeEscape (s.length + 1))
  else
    match unit? s with
    | none => .error (.fault .invalidUnicodeEscape (s.length + 1))
    | some high =>
      match s.drop 4 with
      | '\\' :: 'u' :: rest =>
        if 0xd800 ≤ high ∧ high < 0xdc00 ∧ 5 ≤ rest.length then
          match unit? rest with
          | none => .error (.fault .invalidUnicodeEscape (rest.length + 1))
          | some low =>
            if 0xdc00 ≤ low ∧ low < 0xe000 then
              .ok (Char.ofNat (0x10000 + (high - 0xd800) * 0x400 + (low - 0xdc00)), 10)
            else .ok (charOfUnit high, 4)
        else .ok (charOfUnit high, 4)
      | _ => .ok (charOfUnit high, 4)

/-- The character that stands behind a backslash. -/
def escaped? (c : Char) : Option Char :=
  match c with
  | '"' | '\\' | '/' => some c
  | 'b' => some '\x08'
  | 'f' => some '\x0c'
  | 'n' => some '\n'
  | 'r' => some '\r'
  | 't' => some '\t'
  | _ => none

/-- The rest of a text in quotes; its first quote stands in front of the last `opening` characters
of the whole. -/
def readQuoted (opening : Nat) (s : Text) : Except Stop (Text × Text) :=
  match s with
  | [] => .error (.fault .unterminated opening)
  | '"' :: rest => .ok ([], rest)
  | '\\' :: [] => .error (.fault .unterminated opening)
  | '\\' :: 'u' :: rest => do
    let (c, n) ← readUnits rest
    let (t, rest) ← readQuoted opening (rest.drop n)
    return (c :: t, rest)
  | '\\' :: e :: rest =>
    match escaped? e with
    | none => .error (.fault .invalidEscape s.length)
    | some c => do
      let (t, rest) ← readQuoted opening rest
      return (c :: t, rest)
  | c :: rest =>
    if c < ' ' then .error (.fault .controlCharacter s.length)
    else do
      let (t, rest) ← readQuoted opening rest
      return (c :: t, rest)
termination_by s.length
decreasing_by all_goals (simp only [List.length_cons, List.length_drop]; omega)

/-! ## Numbers -/

/-- The digits of the integer part of a number; a zero stands alone. -/
def readWhole? : Text → Option (Text × Text)
  | '0' :: s => some (['0'], s)
  | c :: s => if c.isDigit then some (run Char.isDigit (c :: s)) else none
  | [] => none

/-- A fraction with at least one digit, if there is one. -/
def readFraction : Text → Text × Text
  | '.' :: s =>
    match run Char.isDigit s with
    | ([], _) => ([], '.' :: s)
    | (digits, rest) => ('.' :: digits, rest)
  | s => ([], s)

/-- An exponent with at least one digit, if there is one. -/
def readExponent (s : Text) : Text × Text :=
  match s with
  | e :: t =>
    if e = 'e' ∨ e = 'E' then
      let (sign, t) :=
        match t with
        | '-' :: t => (['-'], t)
        | '+' :: t => (['+'], t)
        | t => ([], t)
      match run Char.isDigit t with
      | ([], _) => ([], s)
      | (digits, rest) => (e :: sign ++ digits, rest)
    else ([], s)
  | [] => ([], [])

/-- The number behind a sign; it is an integer when it has neither fraction nor exponent. -/
def readUnsigned (negative : Bool) (s : Text) : Option (Except Stop (Number × Text)) :=
  (readWhole? s).map fun (whole, rest) =>
    let (fraction, rest) := readFraction rest
    let (exponent, rest) := readExponent rest
    let sign := if negative then ['-'] else []
    if fraction.isEmpty && exponent.isEmpty then
      if maxIntegerDigits < whole.length then .error (.integerTooLong ⟨whole.length⟩)
      else
        let magnitude : Int := decimalValue (whole.filterMap digitValue?)
        .ok (.int (if negative then -magnitude else magnitude), rest)
    else
      .ok (.float ((readBinary64 (sign ++ whole ++ fraction ++ exponent)).getD .nan), rest)

/-- A number at the start of a text. -/
def readNumber (s : Text) : Except Stop (Number × Text) :=
  let number :=
    match s with
    | '-' :: t => readUnsigned true t
    | t => readUnsigned false t
  number.getD (.error (.fault .expectedValue s.length))

/-! ## Values -/

/-- The values that have names. -/
def named : List (Text × Value) :=
  [("null".toList, .null), ("true".toList, .bool true), ("false".toList, .bool false),
    ("NaN".toList, .number (.float .nan)), ("Infinity".toList, .number (.float (.infinity false))),
    ("-Infinity".toList, .number (.float (.infinity true)))]

/-- A value without parts at the start of a text. -/
def readPlain (s : Text) : Except Stop (Value × Text) :=
  match named.findSome? fun (name, v) => (after? name s).map fun rest => (v, rest) with
  | some r => .ok r
  | none => do
    let (n, rest) ← readNumber s
    return (.number n, rest)

mutual

/-- A value at the start of a text. The first argument bounds the number of steps. -/
def readValue : Nat → Text → Except Stop (Value × Text)
  | 0, s => .error (.fault .expectedValue s.length)
  | fuel + 1, s =>
    match s with
    | '"' :: rest => do
      let (t, rest) ← readQuoted s.length rest
      return (.text t, rest)
    | '[' :: rest =>
      match skipSpace rest with
      | ']' :: rest => .ok (.list [], rest)
      | rest => do
        let (items, rest) ← readItems fuel rest
        return (.list items, rest)
    | '\x7b' :: rest =>
      match skipSpace rest with
      | '\x7d' :: rest => .ok (.table [], rest)
      | rest => do
        let (entries, rest) ← readMembers fuel [] rest
        return (.table entries, rest)
    | s => readPlain s

/-- The items of a list, up to its end. -/
def readItems : Nat → Text → Except Stop (List Value × Text)
  | 0, s => .error (.fault .expectedValue s.length)
  | fuel + 1, s => do
    let (x, rest) ← readValue fuel s
    match skipSpace rest with
    | ']' :: rest => return ([x], rest)
    | ',' :: rest =>
      let (xs, rest) ← readItems fuel (skipSpace rest)
      return (x :: xs, rest)
    | rest => .error (.fault .expectedComma rest.length)

/-- The members of a table behind those in `entries`, up to its end. -/
def readMembers : Nat → Entries Value → Text → Except Stop (Entries Value × Text)
  | 0, _, s => .error (.fault .expectedName s.length)
  | fuel + 1, entries, s =>
    match s with
    | '"' :: rest => do
      let (name, rest) ← readQuoted s.length rest
      match skipSpace rest with
      | ':' :: rest =>
        let (x, rest) ← readValue fuel (skipSpace rest)
        let entries := entries.set name x
        match skipSpace rest with
        | '\x7d' :: rest => return (entries, rest)
        | ',' :: rest => readMembers fuel entries (skipSpace rest)
        | rest => .error (.fault .expectedComma rest.length)
      | rest => .error (.fault .expectedColon rest.length)
    | s => .error (.fault .expectedName s.length)

end

/-- The value that a whole text writes. -/
def readAll (s : Text) : Except Stop Value :=
  if s.head? = some '\ufeff' then .error (.fault .byteOrderMark s.length)
  else do
    let start := skipSpace s
    let (v, rest) ← readValue (2 * start.length + 2) start
    match skipSpace rest with
    | [] => return v
    | rest => .error (.fault .extraData rest.length)

/-! ## Places -/

/-- A fault and its offset in the text, with the line and the column of this place. -/
structure Fault where
  reason : Reason
  line : Nat
  column : Nat
  offset : Nat
  deriving DecidableEq

/-- The fault at an offset of a text. -/
def Fault.locate (s : Text) (reason : Reason) (offset : Nat) : Fault :=
  let before := s.take offset
  ⟨reason, before.count '\n' + 1, (before.reverse.takeWhile (· != '\n')).length + 1, offset⟩

/-- The wording of a fault. -/
def Fault.message (f : Fault) : String :=
  f.reason.message ++ ": line " ++ toString f.line ++ " column " ++ toString f.column ++
    " (char " ++ toString f.offset ++ ")"

/-- Why a text is no JSON text that can be read. -/
inductive ReadError where
  | malformed (f : Fault)
  | integerTooLong (e : IntegerTooLong)
  deriving DecidableEq

/-- The wording of an error. -/
def ReadError.message : ReadError → String
  | .malformed f => f.message
  | .integerTooLong e => e.message

/-- The value that a text writes. -/
def read (s : Text) : Except ReadError Value :=
  match readAll s with
  | .ok v => .ok v
  | .error (.integerTooLong e) => .error (.integerTooLong e)
  | .error (.fault reason left) => .error (.malformed (.locate s reason (s.length - left)))

end SvgAssets.Json
