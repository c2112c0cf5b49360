/-
# SvgAssets.Proofs.TypeScript.LiteralFuel -- the length of a literal is fuel enough

Every reader of literals takes at least one character, and the readers that call each other take
one for each step of their fuel. So whatever is read with some fuel is read with as much as the text
has characters (`readValue_length`), and `readLiteral`, which begins with that much, reads every
text that can be read at all (`readLiteral_eq_some_iff`).
-/
import SvgAssets.Proofs.TypeScript.LiteralGrammar

namespace SvgAssets.TypeScript

/-! ## What the readers take -/

theorem length_skipSpace_le (s : Text) : (skipSpace s).length ≤ s.length :=
  (List.dropWhile_suffix isSpace).length_le

theorem length_lt_of_token? {c : Char} {s t : Text} (h : token? c s = some t) :
    t.length < s.length := by
  have hlength := length_skipSpace_le s
  have hskip : skipSpace s = [c] ++ t := Text.after?_eq_some_iff.1 h
  rw [hskip, List.length_append, List.length_singleton] at hlength
  omega

theorem length_lt_of_readQuoted {quote : Char} {s t r : Text}
    (h : readQuoted quote s = some (t, r)) : r.length < s.length := by
  fun_induction readQuoted quote s generalizing t r with
  | case1 => cases h
  | case2 s =>
    cases h
    exact Nat.lt_succ_self _
  | case3 => cases h
  | case4 _ d s c hescape ih =>
    obtain ⟨⟨t', r'⟩, hread, heq⟩ := Option.map_eq_some_iff.1 h
    cases heq
    exact Nat.lt_succ_of_lt (Nat.lt_succ_of_lt (ih hread))
  | case5 => cases h
  | case6 => cases h
  | case7 c s _ _ _ ih =>
    obtain ⟨⟨t', r'⟩, hread, heq⟩ := Option.map_eq_some_iff.1 h
    cases heq
    exact Nat.lt_succ_of_lt (ih hread)

theorem length_lt_of_readWord? {s w r : Text} (h : readWord? s = some (w, r)) :
    r.length < s.length := by
  cases s with
  | nil => cases h
  | cons c s =>
    rw [readWord?] at h
    by_cases hstart : isNameStart c = true
    · rw [if_pos hstart] at h
      cases h
      exact Nat.lt_succ_of_le (List.dropWhile_suffix isIdentifierPart).length_le
    · rw [if_neg hstart] at h
      cases h

/-- A number takes at least one character: nothing is no numeral. -/
theorem length_lt_of_numberOf? {s : Text} {n : Number}
    (h : numberOf? (s.takeWhile isNumeralChar) = some n) :
    (s.dropWhile isNumeralChar).length < s.length := by
  have hsplit :=
    congrArg List.length (List.takeWhile_append_dropWhile (p := isNumeralChar) (l := s))
  rw [List.length_append] at hsplit
  cases htoken : s.takeWhile isNumeralChar with
  | nil =>
    rw [htoken] at h
    cases h
  | cons c t =>
    rw [htoken, List.length_cons] at hsplit
    omega

theorem length_lt_of_readScalar {s r : Text} {v : Value} (h : readScalar s = some (v, r)) :
    r.length < s.length := by
  cases s with
  | nil => cases h
  | cons c s =>
    unfold readScalar at h
    dsimp only at h
    by_cases hquote : isQuote c = true
    · rw [if_pos hquote] at h
      obtain ⟨⟨t, r'⟩, hread, heq⟩ := Option.map_eq_some_iff.1 h
      cases heq
      exact Nat.lt_succ_of_lt (length_lt_of_readQuoted hread)
    rw [if_neg hquote] at h
    by_cases hstart : isNameStart c = true
    · rw [if_pos hstart] at h
      obtain ⟨⟨w, r'⟩, hread, h⟩ := Option.bind_eq_some_iff.1 h
      obtain ⟨v', -, heq⟩ := Option.map_eq_some_iff.1 h
      cases heq
      exact length_lt_of_readWord? hread
    · rw [if_neg hstart] at h
      obtain ⟨n, hread, heq⟩ := Option.map_eq_some_iff.1 h
      cases heq
      exact length_lt_of_numberOf? hread

theorem length_lt_of_readName {s name r : Text} (h : readName s = some (name, r)) :
    r.length < s.length := by
  have hskip := length_skipSpace_le s
  unfold readName at h
  cases hs : skipSpace s with
  | nil =>
    rw [hs] at h
    cases h
  | cons c t =>
    rw [hs] at h hskip
    dsimp only at h
    by_cases hquote : isQuote c = true
    · rw [if_pos hquote] at h
      have := length_lt_of_readQuoted h
      rw [List.length_cons] at hskip
      omega
    · rw [if_neg hquote] at h
      have := length_lt_of_readWord? h
      omega

/-! ## Fuel -/

/-- A reader has read `x` at the start of `s` and stopped at `r`: it has taken something, and it
reads the same with any fuel that is at least what it has taken. -/
def Settles {α : Type} (read : Nat → Text → Option (α × Text)) (s : Text) (x : α) (r : Text) :
    Prop :=
  r.length < s.length ∧ ∀ fuel, s.length ≤ fuel + r.length → read fuel s = some (x, r)

/-- With something to take there is fuel for a step. -/
theorem settles_of_step {α : Type} {read : Nat → Text → Option (α × Text)} {s r : Text} {x : α}
    (hlength : r.length < s.length)
    (hread : ∀ fuel, s.length ≤ fuel + 1 + r.length → read (fuel + 1) s = some (x, r)) :
    Settles read s x r := by
  refine ⟨hlength, fun fuel hfuel => ?_⟩
  obtain ⟨fuel, rfl⟩ : ∃ k, fuel = k + 1 := ⟨fuel - 1, by omega⟩
  exact hread fuel hfuel

/-- Behind an item one step has been made already. -/
theorem readMore_settles {α : Type} {close : Char} {read : Nat → Text → Option (List α × Text)}
    {n : Nat} (ih : ∀ s items r, read n s = some (items, r) → Settles read s items r) {x : α}
    {s r : Text} {items : List α} (h : readMore close (read n) x s = some (items, r)) :
    r.length < s.length ∧ ∀ fuel, s.length ≤ fuel + 1 + r.length →
      readMore close (read fuel) x s = some (items, r) := by
  unfold readMore at h ⊢
  cases hcomma : token? ',' s with
  | some t =>
    rw [hcomma] at h
    obtain ⟨⟨items', r'⟩, hmore, heq⟩ := Option.map_eq_some_iff.1 h
    cases heq
    have htoken := length_lt_of_token? hcomma
    obtain ⟨hlength, hread⟩ := ih t _ _ hmore
    refine ⟨by omega, fun fuel hfuel => ?_⟩
    dsimp only
    rw [hread fuel (by omega)]
    rfl
  | none =>
    rw [hcomma] at h
    obtain ⟨r', hclose, heq⟩ := Option.map_eq_some_iff.1 h
    cases heq
    refine ⟨length_lt_of_token? hclose, fun fuel hfuel => ?_⟩
    dsimp only
    rw [hclose]
    rfl

section

variable {n : Nat}
  (ihValue : ∀ s v r, readValue n s = some (v, r) → Settles readValue s v r)
  (ihItems : ∀ s items r, readItems n s = some (items, r) → Settles readItems s items r)
  (ihMembers : ∀ s entries r, readMembers n s = some (entries, r) → Settles readMembers s entries r)

include ihItems ihMembers in
theorem settles_readValue {s r : Text} {v : Value} (h : readValue (n + 1) s = some (v, r)) :
    Settles readValue s v r := by
  rw [readValue] at h
  cases hlist : token? '[' s with
  | some t =>
    rw [hlist] at h
    obtain ⟨⟨items, r'⟩, hitems, heq⟩ := Option.map_eq_some_iff.1 h
    dsimp only at heq
    cases heq
    have htoken := length_lt_of_token? hlist
    obtain ⟨hlength, hread⟩ := ihItems t _ _ hitems
    refine settles_of_step (by omega) fun fuel hfuel => ?_
    rw [readValue, hlist]
    dsimp only
    rw [hread fuel (by omega)]
    rfl
  | none =>
    rw [hlist] at h
    dsimp only at h
    cases htable : token? '\x7b' s with
    | some t =>
      rw [htable] at h
      obtain ⟨⟨entries, r'⟩, hentries, heq⟩ := Option.map_eq_some_iff.1 h
      dsimp only at heq
      cases heq
      have htoken := length_lt_of_token? htable
      obtain ⟨hlength, hread⟩ := ihMembers t _ _ hentries
      refine settles_of_step (by omega) fun fuel hfuel => ?_
      rw [readValue, hlist, htable]
      dsimp only
      rw [hread fuel (by omega)]
      rfl
    | none =>
      rw [htable] at h
      have hskip := length_skipSpace_le s
      have hscalar := length_lt_of_readScalar h
      refine settles_of_step (by omega) fun fuel hfuel => ?_
      rw [readValue, hlist, htable]
      exact h

include ihValue ihItems in
theorem settles_readItems {s r : Text} {items : List Value}
    (h : readItems (n + 1) s = some (items, r)) : Settles readItems s items r := by
  rw [readItems] at h
  cases hclose : token? ']' s with
  | some rest =>
    rw [hclose] at h
    cases h
    refine settles_of_step (length_lt_of_token? hclose) fun fuel hfuel => ?_
    rw [readItems, hclose]
  | none =>
    rw [hclose] at h
    obtain ⟨⟨x, t⟩, hx, h⟩ := Option.bind_eq_some_iff.1 h
    obtain ⟨hlength, hvalue⟩ := ihValue s x t hx
    obtain ⟨hlength', hmore⟩ := readMore_settles ihItems h
    refine settles_of_step (by omega) fun fuel hfuel => ?_
    rw [readItems, hclose]
    show (readValue fuel s).bind _ = _
    rw [hvalue fuel (by omega)]
    exact hmore fuel (by omega)

include ihValue ihMembers in
theorem settles_readMembers {s r : Text} {entries : List (Text × Value)}
    (h : readMembers (n + 1) s = some (entries, r)) : Settles readMembers s entries r := by
  rw [readMembers] at h
  cases hclose : token? '\x7d' s with
  | some rest =>
    rw [hclose] at h
    cases h
    refine settles_of_step (length_lt_of_token? hclose) fun fuel hfuel => ?_
    rw [readMembers, hclose]
  | none =>
    rw [hclose] at h
    obtain ⟨⟨name, t⟩, hname, h⟩ := Option.bind_eq_some_iff.1 h
    obtain ⟨t', hcolon, h⟩ := Option.bind_eq_some_iff.1 h
    obtain ⟨⟨x, u⟩, hx, h⟩ := Option.bind_eq_some_iff.1 h
    have hlengthName := length_lt_of_readName hname
    have hlengthColon := length_lt_of_token? hcolon
    obtain ⟨hlength, hvalue⟩ := ihValue t' x u hx
    obtain ⟨hlength', hmore⟩ := readMore_settles ihMembers h
    refine settles_of_step (by omega) fun fuel hfuel => ?_
    rw [readMembers, hclose]
    show (readName s).bind _ = _
    rw [hname]
    show (token? ':' t).bind _ = _
    rw [hcolon]
    show (readValue fuel t').bind _ = _
    rw [hvalue fuel (by omega)]
    exact hmore fuel (by omega)

end

/-- What one of the readers has read with some fuel, it reads with any fuel that is enough. -/
theorem settles (n : Nat) :
    (∀ s v r, readValue n s = some (v, r) → Settles readValue s v r) ∧
      (∀ s items r, readItems n s = some (items, r) → Settles readItems s items r) ∧
      ∀ s entries r, readMembers n s = some (entries, r) → Settles readMembers s entries r := by
  induction n with
  | zero =>
    refine ⟨fun s v r h => ?_, fun s items r h => ?_, fun s entries r h => ?_⟩ <;> cases h
  | succ n ih =>
    obtain ⟨ihValue, ihItems, ihMembers⟩ := ih
    exact ⟨fun s v r => settles_readValue ihItems ihMembers,
      fun s items r => settles_readItems ihValue ihItems,
      fun s entries r => settles_readMembers ihValue ihMembers⟩

/-- **Fuel is no limit.** What is read with any fuel at all is read with as much as the text has
characters. -/
theorem readValue_length {n : Nat} {s r : Text} {v : Value} (h : readValue n s = some (v, r)) :
    readValue s.length s = some (v, r) :=
  ((settles n).1 s v r h).2 s.length (Nat.le_add_right _ _)

theorem readLiteral_eq_some_iff {s : Text} {v : Value} :
    readLiteral s = some v ↔ ∃ n r, readValue n s = some (v, r) ∧ skipSpace r = [] := by
  unfold readLiteral
  constructor
  · intro h
    cases hread : readValue s.length s with
    | none =>
      rw [hread] at h
      cases h
    | some p =>
      obtain ⟨w, r⟩ := p
      rw [hread] at h
      dsimp only at h
      split at h
      · rename_i hspace
        cases h
        exact ⟨s.length, r, hread, hspace⟩
      · cases h
  · rintro ⟨n, r, hread, hspace⟩
    rw [readValue_length hread]
    exact if_pos hspace

end SvgAssets.TypeScript
