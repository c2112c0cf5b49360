/-
# SvgAssets.Text.Basic -- text as a list of characters

Markup, style sheets, names and paths are handled as `Text`, a list of Unicode characters, so
that a length or an offset counts characters and every function on text is plain recursion on a
list. `String` is kept for diagnostics and fixed wording only.

The splitting functions come with the law that nothing is lost: what they return, put back
together, is the text they were given (`after?_eq_some_iff`, `breakAt?_eq_some`,
`intercalate_splitOn`).
-/

namespace SvgAssets

/-- Text, as the list of its Unicode characters. -/
abbrev Text := List Char

/-- Equality of texts is decided by comparing them. -/
instance : LawfulBEq Text := inferInstance

namespace Text

/-! ## Leading text -/

/-- What follows `lead` in `s`, when `s` begins with `lead`. -/
def after? : Text → Text → Option Text
  | [], s => some s
  | _ :: _, [] => none
  | a :: lead, c :: s => if a = c then after? lead s else none

theorem after?_eq_some_iff {lead s rest : Text} :
    after? lead s = some rest ↔ s = lead ++ rest := by
  fun_induction after? lead s with
  | case1 s => simp [eq_comm]
  | case2 => simp
  | case3 lead a s ih => simp [ih]
  | case4 a lead c s h =>
    simp only [List.cons_append, List.cons.injEq, reduceCtorEq, false_iff, not_and]
    exact fun hc => absurd hc.symm h

/-- The text before the first occurrence of `stop`, and the text after that occurrence. -/
def breakAt? (stop : Text) : Text → Option (Text × Text)
  | [] => (after? stop []).map ([], ·)
  | c :: s =>
    match after? stop (c :: s) with
    | some rest => some ([], rest)
    | none => (breakAt? stop s).map fun (before, rest) => (c :: before, rest)

theorem breakAt?_eq_some {stop s before rest : Text}
    (h : breakAt? stop s = some (before, rest)) : s = before ++ stop ++ rest := by
  fun_induction breakAt? stop s generalizing before rest with
  | case1 =>
    obtain ⟨r, hr, he⟩ := Option.map_eq_some_iff.1 h
    cases he
    simpa using after?_eq_some_iff.1 hr
  | case2 c s r hr =>
    cases h
    simpa using after?_eq_some_iff.1 hr
  | case3 c s hr ih =>
    obtain ⟨⟨b, r⟩, hb, he⟩ := Option.map_eq_some_iff.1 h
    cases he
    simp [ih hb]

/-! ## Runs -/

/-- `s` without the longest run of characters satisfying `p` at its end. -/
def dropEndWhile (p : Char → Bool) (s : Text) : Text :=
  (s.reverse.dropWhile p).reverse

/-- `s` without the runs of characters satisfying `p` at both of its ends. -/
def dropAround (p : Char → Bool) (s : Text) : Text :=
  dropEndWhile p (s.dropWhile p)

/-! ## Splitting and replacing -/

/-- The parts of `s` between the occurrences of `sep`. There is always at least one part, and
neighbouring separators have an empty part between them. -/
def splitOn (sep : Char) : Text → List Text
  | [] => [[]]
  | c :: s =>
    if c = sep then [] :: splitOn sep s
    else
      match splitOn sep s with
      | [] => [[c]]
      | part :: parts => (c :: part) :: parts

theorem splitOn_ne_nil (sep : Char) (s : Text) : splitOn sep s ≠ [] := by
  cases s with
  | nil => simp [splitOn]
  | cons c s =>
    rw [splitOn]
    split
    · simp
    · split <;> simp

/-- Putting the separator back between the parts gives the text that was split. -/
theorem intercalate_splitOn (sep : Char) (s : Text) :
    [sep].intercalate (splitOn sep s) = s := by
  induction s with
  | nil => rfl
  | cons c s ih =>
    rw [splitOn]
    split
    · rename_i h
      cases hs : splitOn sep s with
      | nil => exact absurd hs (splitOn_ne_nil sep s)
      | cons part parts => rw [hs] at ih; simp [← ih, h, List.intercalate]
    · split
      · rename_i hs; exact absurd hs (splitOn_ne_nil sep s)
      · rename_i part parts hs
        rw [hs] at ih
        cases parts with
        | nil => simpa [List.intercalate] using ih
        | cons q qs => simp [← ih, List.intercalate]

/-- `s` with every occurrence of the text `first :: others` replaced by `new`, reading from left
to right and never looking at what was put in. -/
def replaceAll (first : Char) (others new : Text) : Text → Text
  | [] => []
  | c :: s =>
    if c = first ∧ others.isPrefixOf s then
      new ++ replaceAll first others new (s.drop others.length)
    else c :: replaceAll first others new s
termination_by s => s.length
decreasing_by all_goals (simp only [List.length_cons, List.length_drop]; omega)

/-- Decimal digits of a number, in ASCII. -/
def ofNat (n : Nat) : Text := Nat.toDigits 10 n

end Text

end SvgAssets
