/-
# SvgAssets.Text.Pattern -- finding and replacing tokens in free text

Markup and style sheets are not parsed as a whole: certain tokens are looked up in free text and
everything between them is left alone. A `Pattern` reads one kind of token at a position and can
print what it has read; that the printed form is exactly the text that was consumed is part of its
type. So a scan, which looks for tokens from left to right and goes on behind each one it finds, is
a decomposition of the text: printing its pieces gives the text back (`text_scan`), and every
replacement of tokens is a map over the pieces of the one text that was read.
-/
import SvgAssets.Text.Basic

namespace SvgAssets

/-- A kind of token in free text. `read prev s` reads a token at the start of `s`, where `prev` is
the character in front of `s`; it returns the token and the text behind it. -/
structure Pattern (α : Type) where
  read : Option Char → Text → Option (α × Text)
  text : α → Text
  exact : ∀ {prev s a rest}, read prev s = some (a, rest) → s = text a ++ rest
  nonempty : ∀ {prev s a rest}, read prev s = some (a, rest) → text a ≠ []

/-- A piece of a scanned text: a token, or a character outside of every token. -/
inductive Piece (α : Type) where
  | plain (c : Char)
  | token (a : α)

namespace Pattern

variable {α : Type} (p : Pattern α)

theorem length_lt {prev : Option Char} {s rest : Text} {a : α}
    (h : p.read prev s = some (a, rest)) : rest.length < s.length := by
  have hs := p.exact h
  have hne := List.length_pos_iff.2 (p.nonempty h)
  rw [hs, List.length_append]
  omega

/-- The pieces of `s`, from left to right, where `prev` is the character in front of `s`. -/
def scanFrom (prev : Option Char) : Text → List (Piece α)
  | [] => []
  | c :: s =>
    match _h : p.read prev (c :: s) with
    | some (a, rest) => .token a :: scanFrom (p.text a).getLast? rest
    | none => .plain c :: scanFrom (some c) s
termination_by s => s.length
decreasing_by
  · exact p.length_lt _h
  · simp

/-- The pieces of a whole text. -/
def scan (s : Text) : List (Piece α) := p.scanFrom none s

/-- The text of one piece. -/
def pieceText : Piece α → Text
  | .plain c => [c]
  | .token a => p.text a

/-- The pieces of a scan, printed in order, are the text that was scanned. -/
theorem text_scanFrom (prev : Option Char) (s : Text) :
    (p.scanFrom prev s).flatMap p.pieceText = s := by
  fun_induction scanFrom p prev s with
  | case1 => rfl
  | case2 prev c s a rest h ih => simp [pieceText, ih, ← p.exact h]
  | case3 prev c s h ih => simp [pieceText, ih]

theorem text_scan (s : Text) : (p.scan s).flatMap p.pieceText = s :=
  p.text_scanFrom none s

/-- The tokens of a text, in order. -/
def tokens (s : Text) : List α :=
  (p.scan s).filterMap fun
    | .plain _ => none
    | .token a => some a

/-- `s` with every token replaced by its image under `f`. -/
def replace (f : α → Text) (s : Text) : Text :=
  (p.scan s).flatMap fun
    | .plain c => [c]
    | .token a => f a

/-- `s` without its tokens. -/
def erase (s : Text) : Text := p.replace (fun _ => []) s

/-- Replacing every token by its own text changes nothing. -/
theorem replace_text (s : Text) : p.replace p.text s = s := by
  conv => rhs; rw [← p.text_scan s]
  rfl

/-- The first token of `s`, with the text in front of it and the text behind it, where `prev` is
the character in front of `s`. -/
def firstFrom (prev : Option Char) : Text → Option (Text × α × Text)
  | [] => none
  | c :: s =>
    match p.read prev (c :: s) with
    | some (a, rest) => some ([], a, rest)
    | none => (firstFrom (some c) s).map fun (before, found) => (c :: before, found)

/-- The first token of a text. -/
def first? (s : Text) : Option α := (p.firstFrom none s).map (·.2.1)

/-- Whether a text holds a token. -/
def occursIn (s : Text) : Bool := (p.first? s).isSome

theorem firstFrom_eq_some {prev : Option Char} {s before rest : Text} {a : α}
    (h : p.firstFrom prev s = some (before, a, rest)) : s = before ++ p.text a ++ rest := by
  fun_induction firstFrom p prev s generalizing before rest with
  | case1 => cases h
  | case2 prev c s b r hr => cases h; simpa using p.exact hr
  | case3 prev c s hr ih =>
    obtain ⟨⟨b, f⟩, hf, he⟩ := Option.map_eq_some_iff.1 h
    cases he
    simp [ih hf]

/-! ## Spans -/

/-- The text in front of the first token, and each token with the text behind it up to the next. -/
def spansOf : List (Piece α) → Text × List (α × Text)
  | [] => ([], [])
  | .plain c :: rest => let (lead, spans) := spansOf rest; (c :: lead, spans)
  | .token a :: rest => let (lead, spans) := spansOf rest; ([], (a, lead) :: spans)

/-- `s` with `f` applied to the texts between tokens; the tokens stay as they are. -/
def mapBetween (f : Text → Text) (s : Text) : Text :=
  let (lead, spans) := spansOf (p.scan s)
  f lead ++ spans.flatMap fun (a, behind) => p.text a ++ f behind

/-- Pieces without the last token among them. -/
def dropLastToken : List (Piece α) → List (Piece α)
  | [] => []
  | .plain c :: rest => .plain c :: dropLastToken rest
  | .token a :: rest =>
    if rest.any fun | .plain _ => false | .token _ => true then .token a :: dropLastToken rest
    else rest

/-- `s` without its last token. -/
def eraseLast (s : Text) : Text := (dropLastToken (p.scan s)).flatMap p.pieceText

end Pattern

/-! ## Reading from a position -/

namespace Text

/-- The longest run of characters satisfying `p` at the start of `s`, and the text behind it. -/
def run (p : Char → Bool) (s : Text) : Text × Text := (s.takeWhile p, s.dropWhile p)

theorem run_append (p : Char → Bool) (s : Text) : (run p s).1 ++ (run p s).2 = s :=
  List.takeWhile_append_dropWhile

theorem eq_append_of_run {p : Char → Bool} {s a rest : Text} (h : run p s = (a, rest)) :
    s = a ++ rest := by
  have := run_append p s
  rw [h] at this
  exact this.symm

/-- The first character of `s`, when it satisfies `p`, and the text behind it. -/
def one? (p : Char → Bool) : Text → Option (Char × Text)
  | [] => none
  | c :: s => if p c then some (c, s) else none

theorem one?_eq_some_iff {p : Char → Bool} {s rest : Text} {c : Char} :
    one? p s = some (c, rest) ↔ s = c :: rest ∧ p c = true := by
  cases s with
  | nil => simp [one?]
  | cons d s =>
    simp only [one?, Option.ite_none_right_eq_some, Option.some.injEq, Prod.mk.injEq,
      List.cons.injEq]
    constructor
    · rintro ⟨h, rfl, rfl⟩; exact ⟨⟨rfl, rfl⟩, h⟩
    · rintro ⟨⟨rfl, rfl⟩, h⟩; exact ⟨h, rfl, rfl⟩

/-! ## Text between fixed delimiters

Comments, CDATA sections and the like: a fixed opening, any content, and the first fixed closing
behind it. Without a closing there is no token. -/

/-- The delimited text at the start of `s`, as its content. -/
def readDelimited (opening closing s : Text) : Option (Text × Text) :=
  (after? opening s).bind (breakAt? closing)

theorem eq_of_readDelimited {opening closing s content rest : Text}
    (h : readDelimited opening closing s = some (content, rest)) :
    s = opening ++ content ++ closing ++ rest := by
  obtain ⟨t, ht, hb⟩ := Option.bind_eq_some_iff.1 h
  rw [after?_eq_some_iff.1 ht, breakAt?_eq_some hb]
  simp

/-- Delimited texts as a kind of token, which is the content alone. -/
def delimited (opening closing : Text) (hne : opening ≠ []) : Pattern Text where
  read _ s := readDelimited opening closing s
  text content := opening ++ content ++ closing
  exact := eq_of_readDelimited
  nonempty _ := by simp [hne]

end Text

end SvgAssets
