/-
# SvgAssets.Proofs.TypeScript.LiteralReading -- literals are read back

A literal is read back as the value that was written, and the reader stops where the literal ends
(`readValue_literal`), if every number in the value has a numeral and every name that is written
without quotes is an identifier. The other way round, what is read back as itself has nothing else
in it (`isReadable_of_readValue`), so that these are exactly the values that are read back
(`readLiteral_literal`). Both are inductions over the value, beside its items and its members.
-/
import SvgAssets.Proofs.TypeScript.LiteralFuel
import SvgAssets.Proofs.TypeScript.LiteralTokens
import SvgAssets.Template.Literal

namespace SvgAssets.TypeScript

/-! ## Values that are read back -/

mutual

/-- The value holds no number without a numeral, and every name that is written without quotes is an
identifier. -/
def IsReadable : Value → Prop
  | .number n => HasNumeral n
  | .list items => AreReadable items
  | .table entries => AreReadableMembers entries
  | _ => True

/-- All items are readable. -/
def AreReadable : List Value → Prop
  | [] => True
  | x :: items => IsReadable x ∧ AreReadable items

/-- All names and values are readable. -/
def AreReadableMembers : List (Text × Value) → Prop
  | [] => True
  | (name, x) :: entries =>
    (isBareName name = true → isIdentifier name = true) ∧ IsReadable x ∧
      AreReadableMembers entries

end

/-! ## Scalars -/

theorem readScalar_quote (t rest : Text) :
    readScalar (quote t ++ rest) = some (.text t, rest) := by
  rw [quote_append]
  show (readQuoted '\'' (escape t ++ '\'' :: rest)).map _ = _
  rw [readQuoted_escape]
  rfl

/-- A word stands for the value of the keyword that it is, and for nothing if it is none. -/
theorem readScalar_word {word : Text} (h : isIdentifier word = true) {rest : Text}
    (hrest : EndsToken rest) :
    readScalar (word ++ rest) = (keywords.lookup word).map fun v => (v, rest) := by
  cases word with
  | nil => exact absurd h Bool.false_ne_true
  | cons c s =>
    have hword := readWord?_append h hrest
    rw [isIdentifier, Bool.and_eq_true] at h
    unfold readScalar
    rw [List.cons_append] at hword ⊢
    dsimp only
    rw [isQuote_of_isNameStart h.1, if_neg Bool.false_ne_true, if_pos h.1, hword]
    rfl

theorem readScalar_numeral {c : Char} (hc : c = '-' ∨ c.isDigit = true) (s : Text) :
    readScalar (c :: s) = (numberOf? ((c :: s).takeWhile isNumeralChar)).map fun n =>
      (.number n, (c :: s).dropWhile isNumeralChar) := by
  have hclass : isQuote c = false ∧ isNameStart c = false := by
    rcases hc with rfl | hc
    · decide
    · exact forall_isDigit (p := fun c => isQuote c = false ∧ isNameStart c = false) (by decide) hc
  unfold readScalar
  dsimp only
  rw [hclass.1, hclass.2, if_neg Bool.false_ne_true, if_neg Bool.false_ne_true]

theorem readScalar_number {n : Number} (hn : HasNumeral n) {rest : Text} (hrest : EndsToken rest) :
    readScalar (n.text ++ rest) = some (.number n, rest) := by
  obtain ⟨negative, s, width, hs, htext, hread⟩ := exists_spelling_text hn
  obtain ⟨c, t, hcons, hc⟩ := exists_text_eq_cons hs negative width
  obtain ⟨htake, hdrop⟩ := span_append (isNumeralChar_text hs negative width)
    fun c hc => (hrest c hc).2
  rw [← htext] at hcons htake hdrop
  rw [hcons, List.cons_append, readScalar_numeral hc, ← List.cons_append, ← hcons, htake, hdrop,
    hread]
  rfl

/-- A number without a numeral is written as a word that is no keyword. -/
theorem readScalar_of_not_hasNumeral {n : Number} (hn : ¬ HasNumeral n) {rest : Text}
    (hrest : EndsToken rest) : readScalar (n.text ++ rest) = none := by
  have hinf : readScalar (['i', 'n', 'f'] ++ rest) = none := readScalar_word (by decide) hrest
  have hnan : readScalar (['n', 'a', 'n'] ++ rest) = none := readScalar_word (by decide) hrest
  cases n with
  | int n => exact absurd trivial hn
  | float x =>
    cases x with
    | nan => exact hnan
    | infinity negative =>
      cases negative with
      | false => exact hinf
      | true => exact readScalar_numeral (.inl rfl) _
    | finite negative m e h => exact absurd trivial hn

/-! ## Where a literal begins -/

theorem exists_number_eq_cons (n : Number) :
    ∃ c t, n.text = c :: t ∧ isSpace c = false ∧ c ≠ ']' ∧ c ≠ '[' ∧ c ≠ '\x7b' := by
  by_cases hn : HasNumeral n
  · obtain ⟨negative, s, width, hs, htext, -⟩ := exists_spelling_text hn
    obtain ⟨c, t, hcons, hc⟩ := exists_text_eq_cons hs negative width
    refine ⟨c, t, htext.trans hcons, ?_⟩
    rcases hc with rfl | hc
    · decide
    · exact forall_isDigit
        (p := fun c => isSpace c = false ∧ c ≠ ']' ∧ c ≠ '[' ∧ c ≠ '\x7b') (by decide) hc
  · cases n with
    | int n => exact absurd trivial hn
    | float x =>
      cases x with
      | nan => exact ⟨'n', _, rfl, by decide⟩
      | infinity negative =>
        cases negative with
        | false => exact ⟨'i', _, rfl, by decide⟩
        | true => exact ⟨'-', _, rfl, by decide⟩
      | finite negative m e h => exact absurd trivial hn

/-- A literal begins with a character that is neither white space nor a closing bracket. -/
theorem exists_literal_eq_cons (v : Value) :
    ∃ c t, literal v = c :: t ∧ isSpace c = false ∧ c ≠ ']' := by
  cases v with
  | null => exact ⟨'n', _, rfl, by decide⟩
  | bool b =>
    cases b with
    | false => exact ⟨'f', _, rfl, by decide⟩
    | true => exact ⟨'t', _, rfl, by decide⟩
  | number n =>
    obtain ⟨c, t, hcons, hspace, hne, -⟩ := exists_number_eq_cons n
    exact ⟨c, t, hcons, hspace, hne⟩
  | text t => exact ⟨'\'', _, rfl, by decide⟩
  | list items => exact ⟨'[', _, rfl, by decide⟩
  | table entries => exact ⟨'\x7b', _, rfl, by decide⟩

/-! ## One step of the readers -/

theorem readValue_list (fuel : Nat) (s : Text) :
    readValue (fuel + 1) ('[' :: s) =
      (readItems fuel s).map fun (items, rest) => (.list items, rest) := rfl

theorem readValue_table (fuel : Nat) (s : Text) :
    readValue (fuel + 1) ('\x7b' :: s) =
      (readMembers fuel s).map fun (entries, rest) => (.table entries, rest) := rfl

theorem readValue_scalar (fuel : Nat) {c : Char} (hspace : isSpace c = false) (hlist : c ≠ '[')
    (htable : c ≠ '\x7b') (s : Text) : readValue (fuel + 1) (c :: s) = readScalar (c :: s) := by
  rw [readValue, token?_of_ne hspace hlist, token?_of_ne hspace htable,
    skipSpace_of_not_isSpace hspace]

theorem readValue_space (fuel : Nat) (s : Text) : readValue fuel (' ' :: s) = readValue fuel s := by
  cases fuel with
  | zero => rfl
  | succ fuel => rw [readValue, readValue, token?_space, token?_space, skipSpace_space]

theorem readItems_space (fuel : Nat) (s : Text) : readItems fuel (' ' :: s) = readItems fuel s := by
  cases fuel with
  | zero => rfl
  | succ fuel => rw [readItems, readItems, token?_space, readValue_space]

theorem readMembers_space (fuel : Nat) (s : Text) :
    readMembers fuel (' ' :: s) = readMembers fuel s := by
  cases fuel with
  | zero => rfl
  | succ fuel => rw [readMembers, readMembers, token?_space, readName, readName, skipSpace_space]

theorem readMore_comma {α : Type} (close : Char) (more : Text → Option (List α × Text)) (x : α)
    (s : Text) :
    readMore close more x (',' :: s) = (more s).map fun (items, rest) => (x :: items, rest) := rfl

theorem readMore_close {α : Type} (close : Char) (hspace : isSpace close = false)
    (hcomma : close ≠ ',') (more : Text → Option (List α × Text)) (x : α) (s : Text) :
    readMore close more x (close :: s) = some ([x], s) := by
  rw [readMore, token?_of_ne hspace hcomma, token?_self hspace]
  rfl

/-- The item that has been read is the first one, and behind a comma the others have been read. -/
theorem readMore_eq_some_cons {α : Type} {close : Char} {more : Text → Option (List α × Text)}
    {x y : α} {s r : Text} {items : List α} (h : readMore close more x s = some (y :: items, r)) :
    x = y ∧ ∀ t, token? ',' s = some t → more t = some (items, r) := by
  unfold readMore at h
  cases hcomma : token? ',' s with
  | some t =>
    rw [hcomma] at h
    obtain ⟨⟨items', r'⟩, hmore, heq⟩ := Option.map_eq_some_iff.1 h
    cases heq
    refine ⟨rfl, fun t' ht => ?_⟩
    cases ht
    exact hmore
  | none =>
    rw [hcomma] at h
    obtain ⟨r', -, heq⟩ := Option.map_eq_some_iff.1 h
    cases heq
    refine ⟨rfl, fun t ht => ?_⟩
    cases ht

/-- What has been read when the first item of a list has been read. -/
theorem readItems_eq_some_cons {fuel : Nat} {s r : Text} {x : Value} {items : List Value}
    (h : readItems (fuel + 1) s = some (x :: items, r)) :
    ∃ t, readValue fuel s = some (x, t) ∧
      ∀ t', token? ',' t = some t' → readItems fuel t' = some (items, r) := by
  rw [readItems] at h
  cases hclose : token? ']' s with
  | some rest =>
    rw [hclose] at h
    cases h
  | none =>
    rw [hclose] at h
    obtain ⟨⟨x', t⟩, hx, h⟩ := Option.bind_eq_some_iff.1 h
    obtain ⟨rfl, hmore⟩ := readMore_eq_some_cons h
    exact ⟨t, hx, hmore⟩

/-- What has been read when the first member of an object has been read. -/
theorem readMembers_eq_some_cons {fuel : Nat} {s r name : Text} {x : Value}
    {entries : List (Text × Value)}
    (h : readMembers (fuel + 1) s = some ((name, x) :: entries, r)) :
    ∃ t t' u, readName s = some (name, t) ∧ token? ':' t = some t' ∧
      readValue fuel t' = some (x, u) ∧
      ∀ u', token? ',' u = some u' → readMembers fuel u' = some (entries, r) := by
  rw [readMembers] at h
  cases hclose : token? '\x7d' s with
  | some rest =>
    rw [hclose] at h
    cases h
  | none =>
    rw [hclose] at h
    obtain ⟨⟨name', t⟩, hname, h⟩ := Option.bind_eq_some_iff.1 h
    obtain ⟨t', hcolon, h⟩ := Option.bind_eq_some_iff.1 h
    obtain ⟨⟨x', u⟩, hx, h⟩ := Option.bind_eq_some_iff.1 h
    obtain ⟨heq, hmore⟩ := readMore_eq_some_cons h
    cases heq
    exact ⟨t, t', u, hname, hcolon, hx, hmore⟩

/-! ## Reading back -/

theorem readValue_of_isScalar {v : Value} (hlist : ∀ items, v ≠ .list items)
    (htable : ∀ entries, v ≠ .table entries) (fuel : Nat) (rest : Text) :
    readValue (fuel + 1) (literal v ++ rest) = readScalar (literal v ++ rest) := by
  cases v with
  | null => exact readValue_scalar fuel (by decide) (by decide) (by decide) _
  | bool b =>
    cases b with
    | false => exact readValue_scalar fuel (by decide) (by decide) (by decide) _
    | true => exact readValue_scalar fuel (by decide) (by decide) (by decide) _
  | number n =>
    obtain ⟨c, t, hcons, hspace, -, hne, hne'⟩ := exists_number_eq_cons n
    rw [literal, hcons]
    exact readValue_scalar fuel hspace hne hne' _
  | text t => exact readValue_scalar fuel (by decide) (by decide) (by decide) _
  | list items => exact absurd rfl (hlist items)
  | table entries => exact absurd rfl (htable entries)

/-- A literal in front of what may follow it, its last closing bracket included. -/
theorem literal_list (items : List Value) (rest : Text) :
    literal (.list items) ++ rest = '[' :: (literalItems items ++ ']' :: rest) := by
  simp [literal]

theorem literal_table (entries : List (Text × Value)) (rest : Text) :
    literal (.table entries) ++ rest = '\x7b' :: (literalMembers entries ++ '\x7d' :: rest) := by
  simp [literal]

theorem literalItems_cons (x y : Value) (items : List Value) (rest : Text) :
    literalItems (x :: y :: items) ++ rest =
      literal x ++ ',' :: ' ' :: (literalItems (y :: items) ++ rest) := by
  simp [literalItems]

theorem literalMembers_singleton (name : Text) (x : Value) (rest : Text) :
    literalMembers [(name, x)] ++ rest = memberName name ++ ':' :: ' ' :: (literal x ++ rest) := by
  simp [literalMembers]

theorem literalMembers_cons (name : Text) (x : Value) (y : Text × Value)
    (entries : List (Text × Value)) (rest : Text) :
    literalMembers ((name, x) :: y :: entries) ++ rest =
      memberName name ++ ':' :: ' ' ::
        (literal x ++ ',' :: ' ' :: (literalMembers (y :: entries) ++ rest)) := by
  simp [literalMembers]

theorem length_literalItems_cons (x y : Value) (items : List Value) :
    (literalItems (x :: y :: items)).length =
      (literal x).length + (literalItems (y :: items)).length + 2 := by
  have h := congrArg List.length (literalItems_cons x y items [])
  simp only [List.append_nil, List.length_append, List.length_cons] at h
  omega

theorem length_literalMembers_singleton (name : Text) (x : Value) :
    (literalMembers [(name, x)]).length =
      (memberName name).length + (literal x).length + 2 := by
  have h := congrArg List.length (literalMembers_singleton name x [])
  simp only [List.append_nil, List.length_append, List.length_cons] at h
  omega

theorem length_literalMembers_cons (name : Text) (x : Value) (y : Text × Value)
    (entries : List (Text × Value)) :
    (literalMembers ((name, x) :: y :: entries)).length =
      (memberName name).length + (literal x).length +
        (literalMembers (y :: entries)).length + 4 := by
  have h := congrArg List.length (literalMembers_cons name x y entries [])
  simp only [List.append_nil, List.length_append, List.length_cons] at h
  omega

theorem readScalar_literal {v : Value} (hlist : ∀ items, v ≠ .list items)
    (htable : ∀ entries, v ≠ .table entries) (h : IsReadable v) {rest : Text}
    (hrest : EndsToken rest) : readScalar (literal v ++ rest) = some (v, rest) := by
  cases v with
  | null => exact readScalar_word (by decide) hrest
  | bool b =>
    cases b with
    | false => exact readScalar_word (by decide) hrest
    | true => exact readScalar_word (by decide) hrest
  | number n => exact readScalar_number h hrest
  | text t => exact readScalar_quote t rest
  | list items => exact absurd rfl (hlist items)
  | table entries => exact absurd rfl (htable entries)

/-- Fuel for a literal is fuel for one step. -/
theorem exists_fuel {v : Value} {fuel : Nat} (h : (literal v).length ≤ fuel) :
    ∃ n, fuel = n + 1 := by
  obtain ⟨c, t, hcons, -⟩ := exists_literal_eq_cons v
  rw [hcons, List.length_cons] at h
  exact ⟨fuel - 1, by omega⟩

theorem readValue_scalar_literal {v : Value} (hlist : ∀ items, v ≠ .list items)
    (htable : ∀ entries, v ≠ .table entries) (h : IsReadable v) {fuel : Nat} {rest : Text}
    (hfuel : (literal v).length ≤ fuel) (hrest : EndsToken rest) :
    readValue fuel (literal v ++ rest) = some (v, rest) := by
  obtain ⟨fuel, rfl⟩ := exists_fuel hfuel
  rw [readValue_of_isScalar hlist htable, readScalar_literal hlist htable h hrest]

/-- The first item of a list is read where it is: its literal is no closing bracket. -/
theorem readItems_literal (fuel : Nat) (x : Value) (s : Text) :
    readItems (fuel + 1) (literal x ++ s) = (readValue fuel (literal x ++ s)).bind fun (x, t) =>
      readMore ']' (readItems fuel) x t := by
  obtain ⟨c, t, hcons, hspace, hne⟩ := exists_literal_eq_cons x
  rw [hcons, List.cons_append, readItems, token?_of_ne hspace hne]
  rfl

theorem readMembers_memberName (fuel : Nat) (name s : Text) :
    readMembers (fuel + 1) (memberName name ++ s) =
      (readName (memberName name ++ s)).bind fun (name, t) =>
        (token? ':' t).bind fun t => (readValue fuel t).bind fun (x, t) =>
          readMore '\x7d' (readMembers fuel) (name, x) t := by
  obtain ⟨c, t, hcons, hspace, hne⟩ := exists_memberName_eq_cons name
  rw [hcons, List.cons_append, readMembers, token?_of_ne hspace hne]
  rfl

mutual

/-- **A readable value is read back** from its literal, and the reader stops where the literal
ends. -/
theorem readValue_literal : (v : Value) → IsReadable v → ∀ {fuel : Nat} {rest : Text},
    (literal v).length ≤ fuel → EndsToken rest →
      readValue fuel (literal v ++ rest) = some (v, rest)
  | .list items, h, fuel, rest, hfuel, hrest => by
    rw [literal, List.length_append, List.length_cons, List.length_singleton] at hfuel
    obtain ⟨fuel, rfl⟩ : ∃ n, fuel = n + 1 := ⟨fuel - 1, by omega⟩
    rw [literal_list, readValue_list, readItems_literalItems items h (by omega)]
    rfl
  | .table entries, h, fuel, rest, hfuel, hrest => by
    rw [literal, List.length_append, List.length_cons, List.length_singleton] at hfuel
    obtain ⟨fuel, rfl⟩ : ∃ n, fuel = n + 1 := ⟨fuel - 1, by omega⟩
    rw [literal_table, readValue_table, readMembers_literalMembers entries h (by omega)]
    rfl
  | .null, h, _, _, hfuel, hrest => readValue_scalar_literal (by simp) (by simp) h hfuel hrest
  | .bool _, h, _, _, hfuel, hrest => readValue_scalar_literal (by simp) (by simp) h hfuel hrest
  | .number _, h, _, _, hfuel, hrest => readValue_scalar_literal (by simp) (by simp) h hfuel hrest
  | .text _, h, _, _, hfuel, hrest => readValue_scalar_literal (by simp) (by simp) h hfuel hrest

/-- The items of a list are read back, up to its closing bracket. -/
theorem readItems_literalItems : (items : List Value) → AreReadable items →
    ∀ {fuel : Nat} {rest : Text}, (literalItems items).length < fuel →
      readItems fuel (literalItems items ++ ']' :: rest) = some (items, rest)
  | [], _, fuel, rest, hfuel => by
    obtain ⟨fuel, rfl⟩ : ∃ n, fuel = n + 1 := ⟨fuel - 1, by omega⟩
    rfl
  | [x], h, fuel, rest, hfuel => by
    rw [literalItems] at hfuel ⊢
    obtain ⟨fuel, rfl⟩ : ∃ n, fuel = n + 1 := ⟨fuel - 1, by omega⟩
    rw [readItems_literal, readValue_literal x h.1 (by omega) (endsToken_bracket rest)]
    exact readMore_close ']' (by decide) (by decide) (readItems fuel) x rest
  | x :: y :: items, h, fuel, rest, hfuel => by
    rw [length_literalItems_cons] at hfuel
    obtain ⟨fuel, rfl⟩ : ∃ n, fuel = n + 1 := ⟨fuel - 1, by omega⟩
    have hmore : readItems fuel (literalItems (y :: items) ++ ']' :: rest) =
        some (y :: items, rest) := readItems_literalItems (y :: items) h.2 (by omega)
    rw [literalItems_cons, readItems_literal,
      readValue_literal x h.1 (by omega) (endsToken_comma _)]
    show readMore ']' (readItems fuel) x (',' :: _) = _
    rw [readMore_comma, readItems_space, hmore]
    rfl

/-- The members of an object are read back, up to its closing brace. -/
theorem readMembers_literalMembers : (entries : List (Text × Value)) →
    AreReadableMembers entries → ∀ {fuel : Nat} {rest : Text},
      (literalMembers entries).length < fuel →
      readMembers fuel (literalMembers entries ++ '\x7d' :: rest) = some (entries, rest)
  | [], _, fuel, rest, hfuel => by
    obtain ⟨fuel, rfl⟩ : ∃ n, fuel = n + 1 := ⟨fuel - 1, by omega⟩
    rfl
  | [(name, x)], h, fuel, rest, hfuel => by
    rw [length_literalMembers_singleton] at hfuel
    obtain ⟨fuel, rfl⟩ : ∃ n, fuel = n + 1 := ⟨fuel - 1, by omega⟩
    have hvalue : readValue fuel (literal x ++ '\x7d' :: rest) = some (x, '\x7d' :: rest) :=
      readValue_literal x h.2.1 (by omega) (endsToken_brace rest)
    rw [literalMembers_singleton, readMembers_memberName,
      readName_memberName h.1 (endsToken_colon _)]
    show ((readValue fuel (' ' :: _)).bind fun (x, t) => _) = _
    rw [readValue_space, hvalue]
    exact readMore_close '\x7d' (by decide) (by decide) (readMembers fuel) (name, x) rest
  | (name, x) :: y :: entries, h, fuel, rest, hfuel => by
    rw [length_literalMembers_cons] at hfuel
    obtain ⟨fuel, rfl⟩ : ∃ n, fuel = n + 1 := ⟨fuel - 1, by omega⟩
    have hmore : readMembers fuel (literalMembers (y :: entries) ++ '\x7d' :: rest) =
        some (y :: entries, rest) := readMembers_literalMembers (y :: entries) h.2.2 (by omega)
    rw [literalMembers_cons, readMembers_memberName,
      readName_memberName h.1 (endsToken_colon _)]
    show ((readValue fuel (' ' :: _)).bind fun (x, t) => _) = _
    rw [readValue_space, readValue_literal x h.2.1 (by omega) (endsToken_comma _)]
    show readMore '\x7d' (readMembers fuel) (name, x) (',' :: _) = _
    rw [readMore_comma, readMembers_space, hmore]
    rfl

end

/-! ## What is read back is readable -/

theorem isReadable_of_readScalar {n : Number} {rest t : Text} (hrest : EndsToken rest)
    (h : readScalar (n.text ++ rest) = some (.number n, t)) : HasNumeral n := by
  by_contra hn
  rw [readScalar_of_not_hasNumeral hn hrest] at h
  cases h

mutual

/-- A value that is read back from its literal is readable. -/
theorem isReadable_of_readValue : (v : Value) → ∀ {fuel : Nat} {rest r : Text},
    (literal v).length ≤ fuel → EndsToken rest →
      readValue fuel (literal v ++ rest) = some (v, r) → IsReadable v
  | .list items, fuel, rest, r, hfuel, hrest, hread => by
    rw [literal, List.length_append, List.length_cons, List.length_singleton] at hfuel
    obtain ⟨fuel, rfl⟩ : ∃ n, fuel = n + 1 := ⟨fuel - 1, by omega⟩
    rw [literal_list, readValue_list] at hread
    obtain ⟨⟨items', r'⟩, hitems, heq⟩ := Option.map_eq_some_iff.1 hread
    cases heq
    exact areReadable_of_readItems items (by omega) hitems
  | .table entries, fuel, rest, r, hfuel, hrest, hread => by
    rw [literal, List.length_append, List.length_cons, List.length_singleton] at hfuel
    obtain ⟨fuel, rfl⟩ : ∃ n, fuel = n + 1 := ⟨fuel - 1, by omega⟩
    rw [literal_table, readValue_table] at hread
    obtain ⟨⟨entries', r'⟩, hentries, heq⟩ := Option.map_eq_some_iff.1 hread
    cases heq
    exact areReadable_of_readMembers entries (by omega) hentries
  | .number n, fuel, rest, r, hfuel, hrest, hread => by
    obtain ⟨fuel, rfl⟩ := exists_fuel hfuel
    rw [readValue_of_isScalar (by simp) (by simp)] at hread
    exact isReadable_of_readScalar hrest hread
  | .null, _, _, _, _, _, _ => trivial
  | .bool _, _, _, _, _, _, _ => trivial
  | .text _, _, _, _, _, _, _ => trivial

/-- Items that are read back are readable. -/
theorem areReadable_of_readItems : (items : List Value) → ∀ {fuel : Nat} {rest r : Text},
    (literalItems items).length < fuel →
      readItems fuel (literalItems items ++ ']' :: rest) = some (items, r) → AreReadable items
  | [], _, _, _, _, _ => trivial
  | [x], fuel, rest, r, hfuel, hread => by
    rw [literalItems] at hfuel hread
    obtain ⟨fuel, rfl⟩ : ∃ n, fuel = n + 1 := ⟨fuel - 1, by omega⟩
    obtain ⟨t, hx, -⟩ := readItems_eq_some_cons hread
    exact ⟨isReadable_of_readValue x (by omega) (endsToken_bracket rest) hx, trivial⟩
  | x :: y :: items, fuel, rest, r, hfuel, hread => by
    rw [length_literalItems_cons] at hfuel
    obtain ⟨fuel, rfl⟩ : ∃ n, fuel = n + 1 := ⟨fuel - 1, by omega⟩
    rw [literalItems_cons] at hread
    obtain ⟨t, hx, hmore⟩ := readItems_eq_some_cons hread
    have hreadable := isReadable_of_readValue x (by omega) (endsToken_comma _) hx
    -- The first item is readable, so the others have been read behind its comma.
    rw [readValue_literal x hreadable (by omega) (endsToken_comma _)] at hx
    cases hx
    have hitems := hmore _ (token?_self (by decide) _)
    rw [readItems_space] at hitems
    exact ⟨hreadable, areReadable_of_readItems (y :: items) (by omega) hitems⟩

/-- Members that are read back are readable, and so are their names. -/
theorem areReadable_of_readMembers : (entries : List (Text × Value)) →
    ∀ {fuel : Nat} {rest r : Text}, (literalMembers entries).length < fuel →
      readMembers fuel (literalMembers entries ++ '\x7d' :: rest) = some (entries, r) →
      AreReadableMembers entries
  | [], _, _, _, _, _ => trivial
  | [(name, x)], fuel, rest, r, hfuel, hread => by
    rw [length_literalMembers_singleton] at hfuel
    obtain ⟨fuel, rfl⟩ : ∃ n, fuel = n + 1 := ⟨fuel - 1, by omega⟩
    rw [literalMembers_singleton] at hread
    obtain ⟨t, t', u, hname, hcolon, hx, -⟩ := readMembers_eq_some_cons hread
    have hidentifier := isIdentifier_of_readName hname
    rw [readName_memberName hidentifier (endsToken_colon _)] at hname
    cases hname
    cases hcolon
    rw [readValue_space] at hx
    exact ⟨hidentifier, isReadable_of_readValue x (by omega) (endsToken_brace rest) hx, trivial⟩
  | (name, x) :: y :: entries, fuel, rest, r, hfuel, hread => by
    rw [length_literalMembers_cons] at hfuel
    obtain ⟨fuel, rfl⟩ : ∃ n, fuel = n + 1 := ⟨fuel - 1, by omega⟩
    rw [literalMembers_cons] at hread
    obtain ⟨t, t', u, hname, hcolon, hx, hmore⟩ := readMembers_eq_some_cons hread
    have hidentifier := isIdentifier_of_readName hname
    rw [readName_memberName hidentifier (endsToken_colon _)] at hname
    cases hname
    cases hcolon
    rw [readValue_space] at hx
    have hreadable := isReadable_of_readValue x (by omega) (endsToken_comma _) hx
    rw [readValue_literal x hreadable (by omega) (endsToken_comma _)] at hx
    cases hx
    have hentries := hmore _ (token?_self (by decide) _)
    rw [readMembers_space] at hentries
    exact ⟨hidentifier, hreadable, areReadable_of_readMembers (y :: entries) (by omega) hentries⟩

end

/-- **Reading literals back.** The literal of a value is read back as that value if and only if no
number in it is infinite or no number at all, and every name that is written without quotes is an
identifier. -/
theorem readLiteral_literal (v : Value) : readLiteral (literal v) = some v ↔ IsReadable v := by
  constructor
  · intro hread
    obtain ⟨n, r, hvalue, -⟩ := readLiteral_eq_some_iff.1 hread
    refine isReadable_of_readValue v (Nat.le_refl _) endsToken_nil (r := r) ?_
    rw [List.append_nil]
    exact readValue_length hvalue
  · intro hreadable
    have hvalue := readValue_literal v hreadable (Nat.le_refl _) endsToken_nil
    rw [List.append_nil] at hvalue
    exact readLiteral_eq_some_iff.2 ⟨_, _, hvalue, rfl⟩

/-- A default that is too large for a number becomes an infinity, which is written as a word. -/
theorem large_default_not_read_back :
    ∃ v, Template.literal "1e999".toList = .ok v ∧ literal v = "inf".toList ∧
      readLiteral (literal v) = none :=
  ⟨.number (.float (.infinity false)), rfl, rfl, by decide⟩

/-- A superscript is a word character, but belongs to no identifier. -/
example : isBareName ['a', '²'] = true ∧
    readLiteral (literal (.table [(['a', '²'], .null)])) = none := by decide

end SvgAssets.TypeScript
