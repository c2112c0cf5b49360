/-
# SvgAssets.Proofs.TypeScript.Escaping -- texts between single quotes

A text is written between single quotes with an escape for each backslash, single quote and line end
in it. The escapes may be put in by one replacement after the other over the whole text: backslashes
come first, and no later replacement finds anything that an earlier one has put in
(`escapeInTurn_eq`).

Which quote ends such a literal is decided by the backslashes in front of it. A run of them is read
from its start, two by two, so a character behind the run is escaped if and only if the run is odd.
The escapes of a text end in an even run, and a quote among them stands behind an odd one: each
quote has a backslash of its own, and nothing takes the closing quote (`isQuotable_escape`). Undoing
the escapes from left to right gives back the text, and nothing but the escapes of a text can be
undone (`unescape_eq_some_iff`).
-/
import Mathlib.Algebra.Ring.Parity
import Mathlib.Data.List.DropRight
import Mathlib.Data.List.Induction
import SvgAssets.Proofs.Text.Replacing
import SvgAssets.TypeScript.Literal

namespace SvgAssets.TypeScript

open Text

/-! ## One replacement after the other -/

/-- The text with backslashes, then single quotes, then line feeds, then carriage returns
replaced. -/
def escapeInTurn (s : Text) : Text :=
  replaceAll '\r' [] ['\\', 'r'] (replaceAll '\n' [] ['\\', 'n']
    (replaceAll '\'' [] ['\\', '\''] (replaceAll '\\' [] ['\\', '\\'] s)))

/-- The replacements do not meet, as backslashes are replaced first. -/
theorem escapeInTurn_eq (s : Text) : escapeInTurn s = escape s := by
  simp only [escapeInTurn, replaceAll_nil_eq_flatMap, List.flatMap_assoc]
  rw [escape]
  congr 1
  funext c
  unfold escapeChar
  by_cases hbackslash : c = '\\'
  · subst c
    rfl
  by_cases hquote : c = '\''
  · subst c
    rfl
  by_cases hfeed : c = '\n'
  · subst c
    rfl
  simp [hbackslash, hquote, hfeed]

/-! ## Escapes of characters -/

theorem escape_cons (c : Char) (s : Text) : escape (c :: s) = escapeChar c ++ escape s :=
  List.flatMap_cons ..

theorem escape_append (s t : Text) : escape (s ++ t) = escape s ++ escape t :=
  List.flatMap_append ..

/-- Characters that are written as they are. -/
def IsPlain (c : Char) : Prop := c ≠ '\\' ∧ c ≠ '\'' ∧ c ≠ '\n' ∧ c ≠ '\r'

theorem escaped?_eq_some_iff {c d : Char} : escaped? d = some c ↔
    (d = '\\' ∧ c = '\\') ∨ (d = '\'' ∧ c = '\'') ∨ (d = 'n' ∧ c = '\n') ∨
      (d = 'r' ∧ c = '\r') := by
  unfold escaped?
  by_cases hbackslash : d = '\\'
  · subst d
    simp [eq_comm]
  by_cases hquote : d = '\''
  · subst d
    simp [eq_comm]
  by_cases hn : d = 'n'
  · subst d
    simp [eq_comm]
  by_cases hr : d = 'r'
  · subst d
    simp [eq_comm]
  simp [hbackslash, hquote, hn, hr]

theorem escapeChar_of_escaped? {c d : Char} (h : escaped? d = some c) :
    escapeChar c = ['\\', d] := by
  rcases escaped?_eq_some_iff.1 h with ⟨rfl, rfl⟩ | ⟨rfl, rfl⟩ | ⟨rfl, rfl⟩ | ⟨rfl, rfl⟩ <;> rfl

theorem escapeChar_of_isPlain {c : Char} (h : IsPlain c) : escapeChar c = [c] := by
  obtain ⟨hbackslash, hquote, hfeed, hreturn⟩ := h
  rw [escapeChar, if_neg hbackslash, if_neg hquote, if_neg hfeed, if_neg hreturn]

/-- A character has an escape or is written as it is. -/
theorem escaped?_or_isPlain (c : Char) : (∃ d, escaped? d = some c) ∨ IsPlain c := by
  by_cases hbackslash : c = '\\'
  · exact .inl ⟨'\\', by rw [hbackslash]; rfl⟩
  by_cases hquote : c = '\''
  · exact .inl ⟨'\'', by rw [hquote]; rfl⟩
  by_cases hfeed : c = '\n'
  · exact .inl ⟨'n', by rw [hfeed]; rfl⟩
  by_cases hreturn : c = '\r'
  · exact .inl ⟨'r', by rw [hreturn]; rfl⟩
  exact .inr ⟨hbackslash, hquote, hfeed, hreturn⟩

/-- No line end is left. -/
theorem not_lineEnd_of_mem_escape {s : Text} : ∀ c ∈ escape s, c ≠ '\n' ∧ c ≠ '\r' := by
  intro c hc
  obtain ⟨d, -, hd⟩ := List.mem_flatMap.1 hc
  rcases escaped?_or_isPlain d with ⟨e, he⟩ | hplain
  · rw [escapeChar_of_escaped? he, List.mem_pair] at hd
    rcases hd with rfl | rfl
    · decide
    · constructor <;> rintro rfl <;> cases he
  · rw [escapeChar_of_isPlain hplain, List.mem_singleton] at hd
    rw [hd]
    exact hplain.2.2

/-- A quote among the escapes of a character is the second half of its own escape. -/
theorem eq_of_escapeChar_eq {c : Char} {before after : Text}
    (h : escapeChar c = before ++ '\'' :: after) : c = '\'' ∧ before = ['\\'] ∧ after = [] := by
  rcases escaped?_or_isPlain c with ⟨d, hd⟩ | hplain
  · rw [escapeChar_of_escaped? hd, List.cons_eq_append_iff] at h
    rcases h with ⟨-, h⟩ | ⟨before, rfl, h⟩
    · cases h
    · obtain ⟨rfl, h⟩ | ⟨b, -, h⟩ := List.cons_eq_append_iff.1 h
      · cases h
        cases hd
        exact ⟨rfl, rfl, rfl⟩
      · simp at h
  · rw [escapeChar_of_isPlain hplain, List.cons_eq_append_iff] at h
    rcases h with ⟨-, h⟩ | ⟨before, -, h⟩
    · cases h
      exact absurd rfl hplain.2.1
    · simp at h

/-- **Where the quotes come from.** Each quote among the escapes of a text is that of a quote in the
text, with a backslash of its own in front of it. -/
theorem exists_of_escape_eq {s before after : Text} (h : escape s = before ++ '\'' :: after) :
    ∃ u v, s = u ++ '\'' :: v ∧ before = escape u ++ ['\\'] ∧ after = escape v := by
  induction s generalizing before with
  | nil => simp [escape] at h
  | cons c s ih =>
    rw [escape_cons] at h
    rcases exists_of_append_eq_append_cons h with ⟨before, rfl, hs⟩ | ⟨w, hc, rfl⟩
    · obtain ⟨u, v, rfl, rfl, rfl⟩ := ih hs
      exact ⟨c :: u, v, rfl, by rw [escape_cons, List.append_assoc], rfl⟩
    · obtain ⟨rfl, rfl, rfl⟩ := eq_of_escapeChar_eq hc
      exact ⟨[], s, rfl, rfl, rfl⟩

/-! ## Runs of backslashes -/

/-- The number of backslashes that a text ends in. -/
def backslashesAtEnd (s : Text) : Nat := (s.rtakeWhile (· == '\\')).length

theorem backslashesAtEnd_concat (s : Text) (c : Char) :
    backslashesAtEnd (s ++ [c]) = if c = '\\' then backslashesAtEnd s + 1 else 0 := by
  rw [backslashesAtEnd, List.rtakeWhile_concat]
  by_cases hc : c = '\\'
  · rw [if_pos hc, if_pos (beq_iff_eq.2 hc), List.length_append, List.length_singleton,
      backslashesAtEnd]
  · rw [if_neg hc, if_neg (by simpa using hc), List.length_nil]

/-- The backslashes at the end of the escapes of a text come in pairs. -/
theorem even_backslashesAtEnd_escape (s : Text) : Even (backslashesAtEnd (escape s)) := by
  induction s using List.reverseRecOn with
  | nil => exact Even.zero
  | append_singleton s c ih =>
    have hlast : escape [c] = escapeChar c := List.flatMap_singleton ..
    rw [escape_append, hlast]
    rcases escaped?_or_isPlain c with ⟨d, hd⟩ | hplain
    · rw [escapeChar_of_escaped? hd, List.append_cons, backslashesAtEnd_concat]
      split
      · rw [backslashesAtEnd_concat, if_pos rfl]
        exact ih.add even_two
      · exact Even.zero
    · rw [escapeChar_of_isPlain hplain, backslashesAtEnd_concat, if_neg hplain.1]
      exact Even.zero

/-- What may stand between single quotes: there is no line end in it, each single quote in it is
escaped, and the closing quote behind it is not. -/
structure IsQuotable (body : Text) : Prop where
  lineFeed_notMem : '\n' ∉ body
  carriageReturn_notMem : '\r' ∉ body
  odd_before_quote : ∀ before after, body = before ++ '\'' :: after → Odd (backslashesAtEnd before)
  even_at_end : Even (backslashesAtEnd body)

theorem isQuotable_escape (s : Text) : IsQuotable (escape s) where
  lineFeed_notMem h := (not_lineEnd_of_mem_escape _ h).1 rfl
  carriageReturn_notMem h := (not_lineEnd_of_mem_escape _ h).2 rfl
  odd_before_quote before after h := by
    obtain ⟨u, v, -, rfl, -⟩ := exists_of_escape_eq h
    rw [backslashesAtEnd_concat, if_pos rfl]
    exact (even_backslashesAtEnd_escape u).add_one
  even_at_end := even_backslashesAtEnd_escape s

/-! ## Undoing the escapes -/

/-- What can be undone are the escapes of what comes out. -/
theorem eq_escape_of_unescape {t s : Text} (h : unescape t = some s) : t = escape s := by
  fun_induction unescape t generalizing s with
  | case1 =>
    cases h
    rfl
  | case2 => cases h
  | case3 d t ih =>
    obtain ⟨c, hc, h⟩ := Option.bind_eq_some_iff.1 h
    obtain ⟨s, hs, h⟩ := Option.bind_eq_some_iff.1 h
    cases h
    rw [escape_cons, escapeChar_of_escaped? hc, ih hs]
    rfl
  | case4 => cases h
  | case5 c t hend hpair hmark ih =>
    obtain ⟨s, hs, rfl⟩ := Option.map_eq_some_iff.1 h
    have hplain : IsPlain c := by
      rw [not_or, not_or] at hmark
      refine ⟨fun hc => ?_, hmark⟩
      cases t with
      | nil => exact hend hc rfl
      | cons d t => exact hpair d t hc rfl
    rw [escape_cons, escapeChar_of_isPlain hplain, ih hs]
    rfl

/-- **Undoing is the inverse of escaping**, and fails for everything that is no escaped text. -/
theorem unescape_eq_some_iff {t s : Text} : unescape t = some s ↔ t = escape s := by
  constructor
  · exact eq_escape_of_unescape
  · rintro rfl
    exact unescape_escape s

/-- **Texts are written without loss.** A literal begins and ends with a single quote. Between them
stand the four replacements in turn, without a line end, with a backslash of its own for each single
quote and with none for the closing one; undoing the escapes from left to right gives back the text,
so different texts have different literals. -/
theorem quote_lossless :
    (∀ s : Text, quote s = '\'' :: escapeInTurn s ++ ['\''] ∧ IsQuotable (escapeInTurn s) ∧
        unescape (escapeInTurn s) = some s) ∧
      Function.Injective quote := by
  refine ⟨fun s => ?_, fun s t h => ?_⟩
  · rw [escapeInTurn_eq]
    exact ⟨rfl, isQuotable_escape s, unescape_escape s⟩
  · have hbody : escape s = escape t := List.append_cancel_right (List.cons.inj h).2
    have hread : unescape (escape s) = some t := unescape_eq_some_iff.2 hbody
    rw [unescape_escape] at hread
    exact Option.some.inj hread

/-- A backslash at the end does not take the closing quote. -/
example : quote ['a', '\\'] = ['\'', 'a', '\\', '\\', '\''] := rfl

end SvgAssets.TypeScript
