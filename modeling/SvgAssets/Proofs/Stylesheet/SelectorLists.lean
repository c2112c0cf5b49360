/-
# SvgAssets.Proofs.Stylesheet.SelectorLists -- the selectors that a prelude lists

The commas between the selectors of a rule stand at top level; inside brackets and quotes a comma
belongs to one selector. The reader cuts a prelude at every comma. So a rule is scoped as its
selectors are listed exactly if none of them holds a comma of its own (`scope_listed_iff`); else the
scope gets into the middle of a selector (`scope_cuts_nested_comma`).

What a prelude lists is told by a scan that knows what is still to be closed (`listed`). For
selectors with paired brackets and quotes it gives the selectors back (`listed_intercalate`).
-/
import Mathlib.Algebra.Order.BigOperators.Group.List
import Mathlib.Algebra.Order.Ring.Nat
import SvgAssets.Proofs.Stylesheet.Grammar

namespace SvgAssets.Stylesheet

open Text

/-! ## Commas at top level -/

/-- The double and the single quote. -/
def isStringQuote (c : Char) : Bool := c == '\x22' || c == '\x27'

/-- What closes the stretch that a character opens, if it opens one. -/
def closing? (c : Char) : Option Char :=
  if c = '(' then some ')'
  else if c = '[' then some ']'
  else if isStringQuote c then some c
  else none

/-- Where a scan stands in a selector: the characters that are still to close a stretch, the next
one first, and whether a backslash stands in front. -/
structure Nesting where
  awaited : List Char
  escaped : Bool
  deriving DecidableEq

namespace Nesting

/-- Outside all brackets and quotes. -/
def top : Nesting := ⟨[], false⟩

/-- Where a scan stands behind a character. Between quotes nothing opens a stretch. -/
def next (n : Nesting) (c : Char) : Nesting :=
  if n.escaped then ⟨n.awaited, false⟩
  else if c = '\\' then ⟨n.awaited, true⟩
  else
    match n.awaited with
    | [] => ⟨(closing? c).toList, false⟩
    | close :: others =>
      if c = close then ⟨others, false⟩
      else if isStringQuote close then ⟨close :: others, false⟩
      else ⟨(closing? c).toList ++ close :: others, false⟩

theorem next_close {close : Char} (hslash : close ≠ '\\') (others : List Char) :
    next ⟨close :: others, false⟩ close = ⟨others, false⟩ := by
  simp [next, hslash]

/-- Between quotes everything but a backslash and the quote is passed over. -/
theorem next_quoted {quote c : Char} (hquote : isStringQuote quote = true) (hslash : c ≠ '\\')
    (hc : c ≠ quote) (others : List Char) :
    next ⟨quote :: others, false⟩ c = ⟨quote :: others, false⟩ := by
  simp [next, hslash, hc, hquote]

/-- Outside of quotes a character opens what it can open, unless it closes something. -/
theorem next_unquoted {awaited : List Char} {c : Char} (hslash : c ≠ '\\')
    (h : ∀ close ∈ awaited.head?, c ≠ close ∧ isStringQuote close = false) :
    next ⟨awaited, false⟩ c = ⟨(closing? c).toList ++ awaited, false⟩ := by
  cases awaited with
  | nil => simp [next, hslash]
  | cons close others =>
    obtain ⟨hne, hquote⟩ := h close rfl
    simp [next, hslash, hne, hquote]

end Nesting

/-- The parts of a text between the commas outside all brackets and quotes. -/
def listedFrom (n : Nesting) : Text → List Text
  | [] => [[]]
  | c :: s =>
    if c = ',' ∧ n = .top then [] :: listedFrom .top s
    else (listedFrom (n.next c) s).modifyHead (c :: ·)

/-- The selectors that a prelude lists, with the white space around them. -/
def listed (prelude : Text) : List Text := listedFrom .top prelude

/-- The selectors that a prelude lists. -/
def listedSelectors (prelude : Text) : List Text := (listed prelude).map trim

theorem listedFrom_ne_nil (n : Nesting) (s : Text) : listedFrom n s ≠ [] := by
  induction s generalizing n with
  | nil => exact List.cons_ne_nil _ _
  | cons c s ih =>
    rw [listedFrom]
    split
    · exact List.cons_ne_nil _ _
    · rw [Ne, List.modifyHead_eq_nil_iff]
      exact ih (n.next c)

theorem intercalate_listedFrom (n : Nesting) (s : Text) :
    [','].intercalate (listedFrom n s) = s := by
  induction s generalizing n with
  | nil => rfl
  | cons c s ih =>
    rw [listedFrom]
    split
    · rename_i htop
      have hrest := ih .top
      obtain ⟨part, parts, hparts⟩ := List.exists_cons_of_ne_nil (listedFrom_ne_nil .top s)
      rw [hparts] at hrest ⊢
      rw [List.intercalate_cons_cons, hrest, htop.1]
      rfl
    · have hrest := ih (n.next c)
      obtain ⟨part, parts, hparts⟩ := List.exists_cons_of_ne_nil (listedFrom_ne_nil (n.next c) s)
      rw [hparts] at hrest ⊢
      cases parts with
      | nil => simpa using hrest
      | cons other parts =>
        rw [List.intercalate_cons_cons] at hrest
        rw [List.modifyHead_cons, List.intercalate_cons_cons, List.cons_append, List.cons_append,
          hrest]

/-! ## Paired brackets and quotes -/

/-- What stands between two quotes. -/
inductive Quoted (quote : Char) : Text → Prop
  | nil : Quoted quote []
  | plain {c : Char} {s : Text} : c ≠ quote → c ≠ '\\' → Quoted quote s → Quoted quote (c :: s)
  | escaped {c : Char} {s : Text} : Quoted quote s → Quoted quote ('\\' :: c :: s)

/-- Characters that open and close nothing. A comma is one inside of brackets only. -/
def isPlainChar (inside : Bool) (c : Char) : Bool :=
  c != '\\' && (closing? c).isNone && c != ')' && c != ']' && (inside || c != ',')

/-- A text with paired brackets and quotes. A comma stands in brackets or quotes, unless the text
itself stands inside of brackets. -/
inductive Nested : (inside : Bool) → Text → Prop
  | nil {inside : Bool} : Nested inside []
  | plain {inside : Bool} {c : Char} {s : Text} : isPlainChar inside c = true → Nested inside s →
    Nested inside (c :: s)
  | escaped {inside : Bool} {c : Char} {s : Text} : Nested inside s → Nested inside ('\\' :: c :: s)
  | quoted {inside : Bool} {quote : Char} {content s : Text} : isStringQuote quote = true →
    Quoted quote content → Nested inside s → Nested inside (quote :: (content ++ quote :: s))
  | bracketed {inside : Bool} {content s : Text} {pair : Char × Char} :
    pair ∈ [('(', ')'), ('[', ']')] → Nested true content → Nested inside s →
    Nested inside (pair.1 :: (content ++ pair.2 :: s))

theorem Nested.append_of_plain {inside : Bool} {w s : Text} (hs : Nested inside s)
    (h : ∀ c ∈ w, isPlainChar inside c = true) : Nested inside (w ++ s) := by
  induction w with
  | nil => exact hs
  | cons c w ih =>
    rw [List.forall_mem_cons] at h
    exact .plain h.1 (ih h.2)

theorem Nested.ofPlain {inside : Bool} {w : Text} (h : ∀ c ∈ w, isPlainChar inside c = true) :
    Nested inside w := by
  rw [← List.append_nil w]
  exact Nested.nil.append_of_plain h

theorem modifyHead_append (v w : Text) (parts : List Text) :
    (parts.modifyHead (w ++ ·)).modifyHead (v ++ ·) = parts.modifyHead (v ++ w ++ ·) := by
  cases parts with
  | nil => rfl
  | cons part parts => simp

theorem listedFrom_cons {awaited : List Char} {c : Char} (h : c ≠ ',' ∨ awaited ≠ []) (s : Text) :
    listedFrom ⟨awaited, false⟩ (c :: s) =
      (listedFrom (Nesting.next ⟨awaited, false⟩ c) s).modifyHead ([c] ++ ·) := by
  rw [listedFrom, if_neg]
  · rfl
  · rintro ⟨hc, htop⟩
    exact h.elim (fun hne => hne hc) fun hne => hne (congrArg Nesting.awaited htop)

/-- An escaped character belongs to the selector that it stands in. -/
theorem listedFrom_escaped (awaited : List Char) (c : Char) (s : Text) :
    listedFrom ⟨awaited, false⟩ ('\\' :: c :: s) =
      (listedFrom ⟨awaited, false⟩ s).modifyHead (['\\', c] ++ ·) := by
  have hslash : Nesting.next ⟨awaited, false⟩ '\\' = ⟨awaited, true⟩ := rfl
  have hnext : Nesting.next ⟨awaited, true⟩ c = ⟨awaited, false⟩ := rfl
  rw [listedFrom_cons (.inl (by decide)), hslash, listedFrom, if_neg (by simp [Nesting.top]), hnext]
  exact modifyHead_append ['\\'] [c] _

/-- A quoted text belongs to the selector that it stands in. -/
theorem listedFrom_quoted {quote : Char} (hquote : isStringQuote quote = true) {content : Text}
    (h : Quoted quote content) (awaited : List Char) (s : Text) :
    listedFrom ⟨quote :: awaited, false⟩ (content ++ quote :: s) =
      (listedFrom ⟨awaited, false⟩ s).modifyHead (content ++ [quote] ++ ·) := by
  have hinside : ∀ c, c ≠ ',' ∨ quote :: awaited ≠ [] := fun c => .inr (List.cons_ne_nil _ _)
  induction h with
  | nil =>
    have hslash : quote ≠ '\\' := by
      rintro rfl
      exact absurd hquote (by decide)
    rw [List.nil_append, listedFrom_cons (hinside quote), Nesting.next_close hslash]
    rfl
  | @plain c content hc hslash _ ih =>
    rw [List.cons_append, listedFrom_cons (hinside c), Nesting.next_quoted hquote hslash hc, ih,
      modifyHead_append]
    rfl
  | @escaped c content _ ih =>
    rw [List.cons_append, List.cons_append, listedFrom_escaped, ih, modifyHead_append]
    rfl

/-- **A nested text belongs to the selector that it stands in,** and the scan stands behind it where
it stood in front. -/
theorem listedFrom_nested {inside : Bool} {w : Text} (h : Nested inside w) {awaited : List Char}
    (hawaited : ∀ close ∈ awaited.head?, close = ')' ∨ close = ']')
    (hinside : inside = true → awaited ≠ []) (s : Text) :
    listedFrom ⟨awaited, false⟩ (w ++ s) =
      (listedFrom ⟨awaited, false⟩ s).modifyHead (w ++ ·) := by
  have hbrackets : ∀ {awaited : List Char} {c : Char},
      (∀ close ∈ awaited.head?, close = ')' ∨ close = ']') → c ≠ ')' → c ≠ ']' →
      ∀ close ∈ awaited.head?, c ≠ close ∧ isStringQuote close = false := by
    intro awaited c hawaited hparen hbracket close hclose
    rcases hawaited close hclose with rfl | rfl
    · exact ⟨hparen, rfl⟩
    · exact ⟨hbracket, rfl⟩
  induction h generalizing awaited s with
  | nil =>
    rw [List.nil_append]
    cases listedFrom ⟨awaited, false⟩ s <;> rfl
  | @plain inside c w hplain _ ih =>
    simp only [isPlainChar, Bool.and_eq_true, Bool.or_eq_true, bne_iff_ne,
      Option.isNone_iff_eq_none] at hplain
    obtain ⟨⟨⟨⟨hslash, hclosing⟩, hparen⟩, hbracket⟩, hcomma⟩ := hplain
    have hcut : c ≠ ',' ∨ awaited ≠ [] := hcomma.symm.imp_right hinside
    rw [List.cons_append, listedFrom_cons hcut,
      Nesting.next_unquoted hslash (hbrackets hawaited hparen hbracket), hclosing,
      Option.toList_none, List.nil_append, ih hawaited hinside, modifyHead_append]
    rfl
  | escaped _ ih =>
    rw [List.cons_append, List.cons_append, listedFrom_escaped, ih hawaited hinside,
      modifyHead_append]
    rfl
  | @quoted inside quote content w hquote hcontent _ ih =>
    have hchar : quote ≠ '\\' ∧ quote ≠ ')' ∧ quote ≠ ']' ∧ quote ≠ ',' ∧
        closing? quote = some quote := by
      simp only [isStringQuote, Bool.or_eq_true, beq_iff_eq] at hquote
      rcases hquote with rfl | rfl <;> decide
    obtain ⟨hslash, hparen, hbracket, hcomma, hclosing⟩ := hchar
    rw [List.cons_append, listedFrom_cons (.inl hcomma),
      Nesting.next_unquoted hslash (hbrackets hawaited hparen hbracket), hclosing,
      Option.toList_some, List.singleton_append, List.append_assoc, List.cons_append,
      listedFrom_quoted hquote hcontent, ih hawaited hinside, modifyHead_append, modifyHead_append]
    simp
  | @bracketed inside content w pair hpair _ _ ihcontent ih =>
    have hchar : pair.1 ≠ '\\' ∧ pair.1 ≠ ')' ∧ pair.1 ≠ ']' ∧ pair.1 ≠ ',' ∧
        closing? pair.1 = some pair.2 ∧ pair.2 ≠ '\\' ∧ (pair.2 = ')' ∨ pair.2 = ']') := by
      rcases List.mem_pair.1 hpair with rfl | rfl <;> decide
    obtain ⟨hslash, hparen, hbracket, hcomma, hclosing, hclose, hpaired⟩ := hchar
    rw [List.cons_append, listedFrom_cons (.inl hcomma),
      Nesting.next_unquoted hslash (hbrackets hawaited hparen hbracket), hclosing,
      Option.toList_some, List.singleton_append, List.append_assoc, List.cons_append,
      ihcontent (by simpa using hpaired) (fun _ => List.cons_ne_nil _ _),
      listedFrom_cons (.inr (List.cons_ne_nil _ _)), Nesting.next_close hclose, ih hawaited hinside,
      modifyHead_append, modifyHead_append, modifyHead_append]
    simp

/-- **Selectors with paired brackets and quotes are listed as they are**, with commas in brackets
and quotes or without. -/
theorem listed_intercalate {parts : List Text} (hne : parts ≠ [])
    (h : ∀ part ∈ parts, Nested false part) : listed ([','].intercalate parts) = parts := by
  have hpart : ∀ {part : Text} (s : Text), Nested false part →
      listed (part ++ s) = (listed s).modifyHead (part ++ ·) := fun s hnested =>
    listedFrom_nested hnested (by simp) nofun s
  induction parts with
  | nil => exact absurd rfl hne
  | cons part parts ih =>
    rw [List.forall_mem_cons] at h
    cases parts with
    | nil =>
      have hlist := hpart [] h.1
      rw [List.append_nil] at hlist
      rw [List.intercalate_singleton, hlist]
      simp [listed, listedFrom]
    | cons other parts =>
      have hcut : ∀ s, listed (',' :: s) = [] :: listed s := fun s => by
        rw [listed, listedFrom, if_pos ⟨rfl, rfl⟩]
        rfl
      rw [List.intercalate_cons_cons, List.append_assoc, List.singleton_append, hpart _ h.1, hcut,
        ih (List.cons_ne_nil _ _) h.2, List.modifyHead_cons, List.append_nil]

/-! ## Commas that are cuts -/

/-- The reader makes no fewer selectors of a prelude than it lists, and as many only if none of them
holds a comma. -/
theorem length_listedSelectors_le (prelude : Text) :
    (listedSelectors prelude).length ≤ (selectors prelude).length ∧
      ((selectors prelude).length ≤ (listedSelectors prelude).length →
        ∀ selector ∈ listed prelude, ',' ∉ selector) := by
  have hlist : [','].intercalate (listed prelude) = prelude := intercalate_listedFrom .top prelude
  have hlength := @length_le_length_splitOn_intercalate ',' _ (listedFrom_ne_nil .top prelude)
  rw [← listed, hlist] at hlength
  rw [listedSelectors, selectors, List.length_map, List.length_map]
  exact hlength

theorem listedSelectors_eq {prelude : Text} (h : ∀ selector ∈ listed prelude, ',' ∉ selector) :
    listedSelectors prelude = selectors prelude := by
  have hlist : [','].intercalate (listed prelude) = prelude := intercalate_listedFrom .top prelude
  have hsplit := splitOn_intercalate (listedFrom_ne_nil .top prelude) h
  rw [← listed, hlist] at hsplit
  rw [selectors, hsplit, listedSelectors]

/-! ## Preludes of a tree -/

mutual

/-- The preludes of the rules of an item, at whatever depth of groups. -/
def Item.preludes : Item → List Text
  | .statement _ => []
  | .untouched _ => []
  | .group _ items => preludes items
  | .rule selectors _ => [[','].intercalate selectors]

/-- The preludes of the rules of a list of items. -/
def preludes : List Item → List Text
  | [] => []
  | item :: rest => item.preludes ++ preludes rest

end

mutual

theorem Item.readWith_congr {f g : Text → List Text} : (item : Item) →
    (∀ prelude ∈ item.preludes, f prelude = g prelude) →
    item.readWith f = item.readWith g ∧ (item.IsWritten f → item.IsWritten g)
  | .statement _, _ => ⟨rfl, id⟩
  | .untouched _, _ => ⟨rfl, id⟩
  | .group prelude items, h => by
    obtain ⟨hread, hwritten⟩ := readItemsWith_congr items h
    refine ⟨by rw [Item.readWith, hread, Item.readWith], ?_⟩
    exact fun ⟨hprelude, hat, hname, hitems⟩ => ⟨hprelude, hat, hname, hwritten hitems⟩
  | .rule parts body, h => by
    have hlist := h _ List.mem_cons_self
    exact ⟨by rw [Item.readWith, hlist, Item.readWith], by rw [Item.IsWritten, hlist]; exact id⟩

/-- Only what is made of the preludes matters to reading. -/
theorem readItemsWith_congr {f g : Text → List Text} : (items : List Item) →
    (∀ prelude ∈ preludes items, f prelude = g prelude) →
    readItemsWith f items = readItemsWith g items ∧ (AreWritten f items → AreWritten g items)
  | [], _ => ⟨rfl, id⟩
  | item :: rest, h => by
    rw [preludes, List.forall_mem_append] at h
    obtain ⟨hitem, hwritten⟩ := Item.readWith_congr item h.1
    obtain ⟨hrest, hwrittenRest⟩ := readItemsWith_congr rest h.2
    exact ⟨by rw [readItemsWith, hitem, hrest, readItemsWith],
      fun hitems => ⟨hwritten hitems.1, hwrittenRest hitems.2⟩⟩

end

/-! ## The length of a scoped tree -/

mutual

/-- How many selectors the rules of an item have. -/
def Item.selectorCount : Item → Nat
  | .statement _ => 0
  | .untouched _ => 0
  | .group _ items => selectorCount items
  | .rule selectors _ => selectors.length

/-- How many selectors the rules of a list of items have. -/
def selectorCount : List Item → Nat
  | [] => 0
  | item :: rest => item.selectorCount + selectorCount rest

end

mutual

theorem Item.selectorCount_readWith (f : Text → List Text) : (item : Item) →
    (item.readWith f).selectorCount = (item.preludes.map fun prelude => (f prelude).length).sum
  | .statement _ => rfl
  | .untouched _ => rfl
  | .group _ items => selectorCount_readItemsWith f items
  | .rule _ _ => rfl

theorem selectorCount_readItemsWith (f : Text → List Text) : (items : List Item) →
    selectorCount (readItemsWith f items) =
      ((preludes items).map fun prelude => (f prelude).length).sum
  | [] => rfl
  | item :: rest => by
    rw [readItemsWith, selectorCount, Item.selectorCount_readWith f item,
      selectorCount_readItemsWith f rest, preludes, List.map_append, List.sum_append_nat]

end

theorem exists_length_scopedSelector (selector : Text) :
    ∃ k, ∀ scopeText, (scopedSelector scopeText selector).length = scopeText.length + k := by
  cases h : behindRoot? selector with
  | some rest => exact ⟨rest.length, fun scopeText => by rw [scopedSelector, h, List.length_append]⟩
  | none =>
    refine ⟨selector.length + 1, fun scopeText => ?_⟩
    rw [scopedSelector, h, List.length_append, List.length_cons]

theorem exists_length_intercalate_scoped (parts : List Text) :
    ∃ k, ∀ scopeText, ([','].intercalate (parts.map (scopedSelector scopeText))).length =
      parts.length * scopeText.length + k := by
  induction parts with
  | nil => exact ⟨0, fun scopeText => by simp⟩
  | cons part parts ih =>
    obtain ⟨k, hk⟩ := exists_length_scopedSelector part
    obtain ⟨l, hl⟩ := ih
    cases parts with
    | nil => exact ⟨k, fun scopeText => by simp [hk]⟩
    | cons other parts =>
      refine ⟨k + 1 + l, fun scopeText => ?_⟩
      have hrest := hl scopeText
      rw [List.map_cons] at hrest
      have hcount : (part :: other :: parts).length = (other :: parts).length + 1 := rfl
      rw [List.map_cons, List.map_cons, List.intercalate_cons_cons, List.length_append,
        List.length_append, hk, hrest, List.length_singleton, hcount, Nat.add_mul]
      omega

mutual

theorem Item.exists_length_print_scoped : (item : Item) →
    ∃ k, ∀ scopeText, (item.scoped scopeText).print.length =
      item.selectorCount * scopeText.length + k
  | .statement text => ⟨text.length, fun scopeText => by
    simp [Item.scoped, Item.print, Item.selectorCount]⟩
  | .untouched text => ⟨text.length, fun scopeText => by
    simp [Item.scoped, Item.print, Item.selectorCount]⟩
  | .group prelude items => by
    obtain ⟨k, hk⟩ := exists_length_printItems_scoped items
    refine ⟨prelude.length + k + 2, fun scopeText => ?_⟩
    simp only [Item.scoped, Item.print, Item.selectorCount, List.length_append, List.length_cons,
      List.length_nil, hk]
    omega
  | .rule parts body => by
    obtain ⟨k, hk⟩ := exists_length_intercalate_scoped parts
    refine ⟨k + body.length + 2, fun scopeText => ?_⟩
    simp only [Item.scoped, Item.print, Item.selectorCount, List.length_append, List.length_cons,
      List.length_nil, hk]
    omega

/-- **Each selector takes the scope once.** -/
theorem exists_length_printItems_scoped : (items : List Item) →
    ∃ k, ∀ scopeText, (printItems (scopedItems scopeText items)).length =
      selectorCount items * scopeText.length + k
  | [] => ⟨0, fun scopeText => by simp [scopedItems, printItems, selectorCount]⟩
  | item :: rest => by
    obtain ⟨k, hk⟩ := Item.exists_length_print_scoped item
    obtain ⟨l, hl⟩ := exists_length_printItems_scoped rest
    refine ⟨k + l, fun scopeText => ?_⟩
    rw [scopedItems, printItems, List.length_append, hk, hl, selectorCount, Nat.add_mul]
    omega

end

/-- Trees that are the same text under every scope have as many selectors. -/
theorem selectorCount_eq_of_print {items others : List Item}
    (h : ∀ scopeText, printItems (scopedItems scopeText items) =
      printItems (scopedItems scopeText others)) : selectorCount items = selectorCount others := by
  obtain ⟨k, hk⟩ := exists_length_printItems_scoped items
  obtain ⟨l, hl⟩ := exists_length_printItems_scoped others
  have hnone := hk []
  have hone := hk ['.']
  rw [h, hl] at hnone hone
  simp only [List.length_nil, List.length_singleton, Nat.mul_zero, Nat.mul_one] at hnone hone
  omega

/-! ## Scoping what is listed -/

section

variable {list : Text → List Text}

mutual

/-- Where a text is accepted, no rule in it has an empty selector as the reader cuts it. -/
theorem Item.IsWritten.of_isSheet : (item : Item) → item.IsWritten list → ∀ {s : Text},
    IsSheet .asWritten (item.print ++ s) → item.IsWritten selectors ∧ IsSheet .asWritten s
  | .statement text, h, s, hsheet => by
    refine ⟨h, ?_⟩
    obtain ⟨t, rfl, ht⟩ := h
    rw [Item.print, ← List.append_cons] at hsheet
    exact (isSheet_statement_iff ht).1 hsheet
  | .untouched text, h, s, hsheet => by
    refine ⟨h, ?_⟩
    obtain ⟨prelude, body, rfl, hprelude, -, -, hbody⟩ := h
    rw [Item.print, List.append_assoc, List.append_assoc] at hsheet
    exact ((isSheet_block_iff hprelude hbody).1 hsheet).2
  | .group prelude items, h, s, hsheet => by
    obtain ⟨hprelude, hat, hname, hitems⟩ := h
    rw [Item.print, List.append_assoc, List.append_assoc] at hsheet
    obtain ⟨⟨hgroup, -⟩, hs⟩ :=
      (isSheet_block_iff hprelude (balanced_printItems items hitems)).1 hsheet
    -- What a group holds is read as a sheet of its own.
    have hinner := hgroup hat (List.contains_iff_mem.2 hname)
    exact ⟨⟨hprelude, hat, hname, AreWritten.of_isSheet items hitems hinner⟩, hs⟩
  | .rule parts body, h, s, hsheet => by
    obtain ⟨hprelude, hat, -, hbody⟩ := h
    rw [Item.print, List.append_assoc, List.append_assoc] at hsheet
    obtain ⟨⟨-, hrule⟩, hs⟩ := (isSheet_block_iff hprelude (.ofPlain hbody)).1 hsheet
    refine ⟨⟨hprelude, hat, ?_, hbody⟩, hs⟩
    intro selector hselector
    obtain ⟨part, hpart, rfl⟩ := List.mem_map.1 hselector
    obtain ⟨c, hc, hblank⟩ := (hrule hat).1 part hpart
    exact List.ne_nil_of_mem ((mem_trim_iff hblank).2 hc)

theorem AreWritten.of_isSheet : (items : List Item) → AreWritten list items →
    IsSheet .asWritten (printItems items) → AreWritten selectors items
  | [], _, _ => trivial
  | item :: rest, h, hsheet => by
    obtain ⟨hitem, hrest⟩ := Item.IsWritten.of_isSheet item h.1 hsheet
    exact ⟨hitem, AreWritten.of_isSheet rest h.2 hrest⟩

end

end

theorem scope_written {items : List Item} (h : AreWritten selectors items) (scopeText : Text) :
    scope (printItems items) scopeText =
      .ok (printItems (scopedItems scopeText (readItemsWith selectors items))) := by
  rw [scope, parse, parseItems_written items h]
  rfl

/-- **A sheet is scoped as its rules list their selectors** under every scope -- each of them takes
the scope once, and the rest of its text stays -- exactly if no selector holds a comma, which it may
do inside of brackets and quotes. -/
theorem scope_listed_iff {items : List Item} (h : AreWritten listedSelectors items) :
    (∀ scopeText, scope (printItems items) scopeText =
        .ok (printItems (scopedItems scopeText (readItemsWith listedSelectors items)))) ↔
      ∀ prelude ∈ preludes items, ∀ selector ∈ listed prelude, ',' ∉ selector := by
  constructor
  · intro hall
    have hwritten : AreWritten selectors items :=
      AreWritten.of_isSheet items h ((exists_scope_iff []).1 ⟨_, hall []⟩)
    have hcount := selectorCount_eq_of_print fun scopeText =>
      Except.ok.inj ((scope_written hwritten scopeText).symm.trans (hall scopeText))
    rw [selectorCount_readItemsWith, selectorCount_readItemsWith] at hcount
    intro prelude hmem
    refine (length_listedSelectors_le prelude).2 ?_
    by_contra hmore
    -- One prelude that is cut more often than it lists makes more selectors in the whole tree.
    have hlt := List.sum_lt_sum (fun prelude => (listedSelectors prelude).length)
      (fun prelude => (selectors prelude).length)
      (fun prelude _ => (length_listedSelectors_le prelude).1) ⟨prelude, hmem, by omega⟩
    omega
  · intro hfree
    obtain ⟨hread, hwritten⟩ := readItemsWith_congr items fun prelude hmem =>
      listedSelectors_eq (hfree prelude hmem)
    rw [hread]
    exact scope_written (hwritten h)

/-- Two selectors with brackets and quotes, and no comma in them. -/
def bracketedSelectors : List Text := [".a:not(.b)".toList, " [t='u v'] ".toList]

theorem nested_bracketedSelectors : ∀ part ∈ bracketedSelectors, Nested false part := by
  have hquoted : Quoted '\'' "u v".toList :=
    .plain (by decide) (by decide) (.plain (by decide) (by decide)
      (.plain (by decide) (by decide) .nil))
  have hvalue : Nested true "t='u v'".toList :=
    Nested.append_of_plain (w := "t=".toList) (.quoted rfl hquoted .nil) (forall_mem_of_all rfl)
  have hclass : Nested true ".b".toList := .ofPlain (forall_mem_of_all rfl)
  have hround : Nested false "(.b)".toList :=
    @Nested.bracketed false _ _ ('(', ')') (by decide) hclass .nil
  have hsquare : Nested false "[t='u v'] ".toList :=
    @Nested.bracketed false _ _ ('[', ']') (by decide) hvalue (.plain rfl .nil)
  rw [bracketedSelectors, List.forall_mem_cons, List.forall_mem_singleton]
  exact ⟨hround.append_of_plain (w := ".a:not".toList) (forall_mem_of_all rfl), .plain rfl hsquare⟩

/-- A rule in a group, with brackets and quotes and without a comma in them. -/
theorem scope_listed_iff_brackets :
    AreWritten listedSelectors [.group "@media print".toList
      [.rule [".a:not(.b)".toList, " [t='u v'] ".toList] "x:y".toList]] ∧
    scope "@media print\x7b.a:not(.b), [t='u v'] \x7bx:y\x7d\x7d".toList ".s".toList =
      .ok "@media print\x7b.s .a:not(.b),.s [t='u v']\x7bx:y\x7d\x7d".toList := by
  have hlisted : listed ([','].intercalate bracketedSelectors) = bracketedSelectors :=
    listed_intercalate (by decide) nested_bracketedSelectors
  have hwritten : AreWritten listedSelectors [.group "@media print".toList
      [.rule [".a:not(.b)".toList, " [t='u v'] ".toList] "x:y".toList]] := by
    refine ⟨⟨⟨⟨'@', rfl, rfl⟩, forall_mem_of_all rfl⟩, rfl, by decide +kernel, ?_, trivial⟩,
      trivial⟩
    exact ⟨⟨⟨'.', rfl, rfl⟩, forall_mem_of_all rfl⟩, by decide, by decide +kernel,
      forall_mem_of_all rfl⟩
  refine ⟨hwritten, (scope_listed_iff hwritten).2 ?_ ".s".toList⟩
  intro prelude hprelude
  -- What the only prelude lists is what it was put together from.
  obtain rfl : prelude = [','].intercalate bracketedSelectors := List.mem_singleton.1 hprelude
  rw [hlisted]
  decide +kernel

/-- **A scope gets into the middle of a selector** behind a comma in brackets. -/
theorem scope_cuts_nested_comma :
    Nested false ":is(.a,.b)".toList ∧
      AreWritten listedSelectors [.rule [":is(.a,.b)".toList] "x:y".toList] ∧
      printItems (scopedItems ".s".toList (readItemsWith listedSelectors
        [.rule [":is(.a,.b)".toList] "x:y".toList])) = ".s :is(.a,.b)\x7bx:y\x7d".toList ∧
      scope ":is(.a,.b)\x7bx:y\x7d".toList ".s".toList =
        .ok ".s :is(.a,.s .b)\x7bx:y\x7d".toList := by
  refine ⟨?_, ?_, by decide +kernel, by decide +kernel⟩
  · have hinner : Nested true ".a,.b".toList := .ofPlain (forall_mem_of_all rfl)
    have hbracketed : Nested false "(.a,.b)".toList :=
      @Nested.bracketed false _ _ ('(', ')') (by decide) hinner .nil
    exact .plain rfl (.plain rfl (.plain rfl hbracketed))
  · exact ⟨⟨⟨⟨':', rfl, rfl⟩, forall_mem_of_all rfl⟩, by decide, by decide +kernel,
      forall_mem_of_all rfl⟩, trivial⟩

end SvgAssets.Stylesheet
