/-
# SvgAssets.Settings.EnvFile -- files of variables

A file of variables has one binding on a line: a name, an equals sign and a value, which may stand
in single or double quotes and may then go over several lines. A line that is no binding is passed
over. A value may refer to variables of the environment and to those bound before it; a reference
may have a text that stands in for a variable that is not bound.
-/
import SvgAssets.Entries
import SvgAssets.Text.Blank
import SvgAssets.Text.LineBreak
import SvgAssets.Text.Pattern

namespace SvgAssets.EnvFile

open Text

/-! ## Lines -/

/-- White space within a line. -/
def isInnerBlank (c : Char) : Bool := isBlank c && !isLineBreak c

/-- What is read of a line and the text behind it, or the text at which the line goes wrong. -/
abbrev Line (α : Type) := Except Text (α × Text)

/-- `s` without the word that may stand in front of a name. -/
def skipExport (s : Text) : Text :=
  match after? "export".toList s with
  | some rest =>
    match one? isInnerBlank rest with
    | some (_, rest) => rest.dropWhile isInnerBlank
    | none => s
  | none => s

/-- The name of a binding; a line that is only a comment has none. -/
def readName (s : Text) : Line (Option Text) :=
  match s with
  | '#' :: _ => .ok (none, s)
  | '\'' :: t =>
    match run (· != '\'') t with
    | (c :: name, _ :: rest) => .ok (some (c :: name), rest)
    | _ => .error s
  | _ =>
    match run (fun c => c != '=' && c != '#' && !isBlank c) s with
    | ([], _) => .error s
    | (name, rest) => .ok (some name, rest)

/-- The text up to a quote, which is the first that stands behind no backslash. When each one
stands behind a backslash, it is the last. -/
def untilQuote (quote : Char) : Text → Option (Text × Text)
  | [] => none
  | c :: s =>
    if c = quote then some ([], s)
    else if c = '\\' then
      match s with
      | d :: t =>
        if d = quote then
          match untilQuote quote t with
          | some (inner, rest) => some (c :: d :: inner, rest)
          | none => some ([c], t)
        else (untilQuote quote (d :: t)).map fun (inner, rest) => (c :: inner, rest)
      | [] => none
    else (untilQuote quote s).map fun (inner, rest) => (c :: inner, rest)

/-- What a letter behind a backslash stands for in double quotes. -/
def escaped? (c : Char) : Option Char :=
  match c with
  | '\\' | '\'' | '"' => some c
  | 'a' => some '\x07'
  | 'b' => some '\x08'
  | 'f' => some '\x0c'
  | 'n' => some '\n'
  | 'r' => some '\r'
  | 't' => some '\t'
  | 'v' => some '\x0b'
  | _ => none

/-- What a character behind a backslash stands for in single quotes. -/
def escapedPlain? (c : Char) : Option Char := if c = '\\' ∨ c = '\'' then some c else none

/-- `s` with its escapes undone. -/
def unescape (escaped? : Char → Option Char) : Text → Text
  | '\\' :: c :: s =>
    match escaped? c with
    | some d => d :: unescape escaped? s
    | none => '\\' :: unescape escaped? (c :: s)
  | c :: s => c :: unescape escaped? s
  | [] => []

/-- `s` up to white space that stands in front of a number sign. -/
def cutComment : Text → Text
  | [] => []
  | c :: s =>
    if isBlank c ∧ (s.dropWhile isBlank).head? = some '#' then [] else c :: cutComment s

/-- The value of a binding. -/
def readValue (s : Text) : Line Text :=
  match s with
  | '\'' :: t =>
    match untilQuote '\'' t with
    | some (inner, rest) => .ok (unescape escapedPlain? inner, rest)
    | none => .error s
  | '"' :: t =>
    match untilQuote '"' t with
    | some (inner, rest) => .ok (unescape escaped? inner, rest)
    | none => .error s
  | s =>
    let (value, rest) := run (fun c => !isLineBreak c) s
    .ok (trimEnd (cutComment value), rest)

/-- The end of a line, behind white space and a comment. -/
def readEnd (s : Text) : Line Unit :=
  let rest :=
    match s.dropWhile isInnerBlank with
    | '#' :: t => t.dropWhile fun c => !isLineBreak c
    | _ => s
  match rest.dropWhile isInnerBlank with
  | [] => .ok ((), [])
  | c :: t => if isLineBreak c then .ok ((), t) else .error rest

/-- A name and its value; a name without an equals sign has none. -/
abbrev Binding := Text × Option Text

/-- The binding of a line. -/
def readBinding (s : Text) : Except Text (Option Binding × Text) := do
  let (name, rest) ← readName (skipExport s)
  match rest.dropWhile isInnerBlank with
  | '=' :: rest =>
    let (value, rest) ← readValue (rest.dropWhile isInnerBlank)
    let (_, rest) ← readEnd rest
    return (name.map (·, some value), rest)
  | rest =>
    let (_, rest) ← readEnd rest
    return (name.map (·, none), rest)

/-- The text behind the rest of a line. -/
def skipLine (s : Text) : Text := (s.dropWhile fun c => !isLineBreak c).drop 1

/-- The bindings of a text, in order. -/
def bindings (s : Text) : List Binding :=
  let line := trimStart s
  if line.isEmpty then []
  else
    let (found, rest) :=
      match readBinding line with
      | .ok (found, rest) => (found, rest)
      | .error wrong => (none, skipLine wrong)
    if _h : rest.length < s.length then found.toList ++ bindings rest else found.toList
termination_by s.length

/-! ## References -/

/-- A reference to a variable, with the text that stands in for it. -/
structure Reference where
  name : Text
  fallback : Option Text

namespace Reference

/-- The reference as it stands in a value. -/
def text (r : Reference) : Text :=
  ['$', '\x7b'] ++ r.name ++ (r.fallback.elim [] fun f => ':' :: '-' :: f) ++ ['\x7d']

/-- The reference at the start of `s`. -/
def read (s : Text) : Option (Reference × Text) := do
  let s ← after? ['$', '\x7b'] s
  let (name, s) := run (fun c => c != '\x7d' && c != ':') s
  match after? [':', '-'] s with
  | some s =>
    let (fallback, s) := run (· != '\x7d') s
    let s ← after? ['\x7d'] s
    return (⟨name, some fallback⟩, s)
  | none =>
    let s ← after? ['\x7d'] s
    return (⟨name, none⟩, s)

theorem text_of_read {s rest : Text} {r : Reference} (h : read s = some (r, rest)) :
    s = r.text ++ rest := by
  simp only [read, Option.bind_eq_bind, Option.bind_eq_some_iff, after?_eq_some_iff] at h
  obtain ⟨s₁, rfl, h⟩ := h
  have e₁ := run_append (fun c => c != '\x7d' && c != ':') s₁
  generalize run (fun c => c != '\x7d' && c != ':') s₁ = p at h e₁
  split at h
  · rename_i s₂ hs
    obtain ⟨s₃, h₃, h⟩ := Option.bind_eq_some_iff.1 h
    have e₂ := run_append (· != '\x7d') s₂
    generalize run (· != '\x7d') s₂ = q at h h₃ e₂
    rw [after?_eq_some_iff.1 h₃] at e₂
    cases h
    rw [← e₁, after?_eq_some_iff.1 hs, ← e₂]
    simp [text]
  · obtain ⟨s₃, h₃, h⟩ := Option.bind_eq_some_iff.1 h
    cases h
    rw [← e₁, after?_eq_some_iff.1 h₃]
    simp [text]

/-- References as a kind of token. -/
def pattern : Pattern Reference where
  read _ s := read s
  text := text
  exact := text_of_read
  nonempty _ := by simp [text]

/-- What a reference stands for. A variable that is bound without a value stands for nothing. -/
def resolve (lookup : Text → Option (Option Text)) (r : Reference) : Text :=
  match lookup r.name with
  | some value => value.getD []
  | none => r.fallback.getD []

end Reference

/-- The variables of a file, with all references resolved. -/
def resolved (environment : Entries Text) (s : Text) : Entries (Option Text) :=
  (bindings s).foldl
    (fun bound (name, value) =>
      let lookup (name : Text) : Option (Option Text) :=
        match Entries.get? bound name with
        | some value => some value
        | none => (environment.get? name).map some
      Entries.set name (value.map (Reference.pattern.replace (Reference.resolve lookup))) bound)
    []

end SvgAssets.EnvFile
