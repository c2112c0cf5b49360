/-
# SvgAssets.Proofs.Stylesheet.Structure -- scoping follows the tree of a style sheet

The reader of style sheets sees flat text: it looks for the next brace and the next semicolon, and a
counter of open braces tells it where a block ends. Here it is shown to find the tree that was
printed. The argument has three parts: the text of a tree has paired braces, so a block ends where
its tree ends (`closeBlock?_balanced`); in front of the next opening brace of a printed tree there
is no closing one, so no item is mistaken for the end of a block (`OpensFirst`); and each kind of
item is read back as itself when what follows is read back as itself, at every offset.
-/
import Mathlib.Data.List.Forall2
import SvgAssets.Proofs.Text.Scanning
import SvgAssets.Proofs.Text.Splitting
import SvgAssets.Stylesheet.Scope

namespace SvgAssets.Text

/-! ## Trimmed and joined texts -/

theorem head?_of_trim_eq_self {s : Text} (h : trim s = s) : ∀ c ∈ s.head?, isBlank c = false := by
  rw [← h]
  exact head?_dropAround

theorem getLast?_of_trim_eq_self {s : Text} (h : trim s = s) :
    ∀ c ∈ s.getLast?, isBlank c = false := by
  rw [← h]
  exact getLast?_dropAround

theorem trim_append_blanks {w : Text} (hw : ∀ c ∈ w, isBlank c = true) (s : Text) :
    trim (s ++ w) = trim s := by
  obtain ⟨v, u, hs, hv, hu⟩ := exists_eq_append_trim s
  conv => lhs; rw [hs, List.append_assoc]
  refine dropAround_append hv (fun c hc => ?_) head?_dropAround getLast?_dropAround
  exact (List.mem_append.1 hc).elim (hu c) (hw c)

theorem trim_cons_of_blank {c : Char} (hc : isBlank c = true) (s : Text) :
    trim (c :: s) = trim s := by
  rw [trim, dropAround, List.dropWhile_cons_of_pos hc]
  rfl

/-- White space around a text is white space around its parts. -/
theorem map_trim_splitOn_trim {sep : Char} (hsep : isBlank sep = false) (s : Text) :
    (splitOn sep (trim s)).map trim = (splitOn sep s).map trim := by
  have hnot : ∀ {w : Text}, (∀ c ∈ w, isBlank c = true) → sep ∉ w := fun hw hmem =>
    absurd ((hw sep hmem).symm.trans hsep) (by decide)
  have hfront : ∀ {v : Text} (t : Text), (∀ c ∈ v, isBlank c = true) →
      (splitOn sep (v ++ t)).map trim = (splitOn sep t).map trim := by
    intro v t hv
    induction v with
    | nil => rfl
    | cons c v ih =>
      have hne : c ≠ sep := fun he => hnot hv (he ▸ List.mem_cons_self)
      rw [List.forall_mem_cons] at hv
      rw [List.cons_append, splitOn_cons_of_ne hne, ← ih hv.2]
      cases splitOn sep (v ++ t) with
      | nil => rfl
      | cons part parts => simp [trim_cons_of_blank hv.1]
  have hback : ∀ {w : Text} (t : Text), (∀ c ∈ w, isBlank c = true) →
      (splitOn sep (t ++ w)).map trim = (splitOn sep t).map trim := by
    intro w t hw
    induction hn : t.length using Nat.strongRecOn generalizing t with
    | ind n ih =>
      rcases breakAt?_cases sep t with ⟨-, hmem⟩ | ⟨x, y, -, rfl, hx⟩
      · have hmem' : sep ∉ t ++ w := fun h => (List.mem_append.1 h).elim hmem (hnot hw)
        rw [splitOn_eq_singleton hmem, splitOn_eq_singleton hmem', List.map_singleton,
          List.map_singleton, trim_append_blanks hw]
      · rw [List.append_assoc, List.cons_append, splitOn_append_cons, splitOn_append_cons,
          List.map_append, List.map_append, ih y.length ?_ y rfl]
        rw [← hn, List.length_append, List.length_cons]
        omega
  obtain ⟨v, w, hs, hv, hw⟩ := exists_eq_append_trim s
  conv => rhs; rw [hs, hback _ hw, hfront _ hv]

end SvgAssets.Text

namespace SvgAssets.Stylesheet

open Text

/-! ## Paired braces -/

/-- The braces of a text are paired. -/
inductive Balanced : Text → Prop
  | nil : Balanced []
  | plain {c : Char} {s : Text} : isOutsideBraces c = true → Balanced s → Balanced (c :: s)
  | block {s t : Text} : Balanced s → Balanced t → Balanced ('\x7b' :: s ++ '\x7d' :: t)

theorem Balanced.append {s t : Text} (hs : Balanced s) (ht : Balanced t) : Balanced (s ++ t) := by
  induction hs with
  | nil => exact ht
  | plain hc _ ih => exact .plain hc ih
  | @block u v hu _ _ ihv =>
    rw [List.append_assoc, List.cons_append]
    exact .block hu ihv

theorem Balanced.ofPlain {s : Text} (h : ∀ c ∈ s, isOutsideBraces c = true) : Balanced s := by
  induction s with
  | nil => exact .nil
  | cons c s ih =>
    exact .plain (h c (by simp)) (ih fun d hd => h d (List.mem_cons_of_mem c hd))

theorem closeBlock?_cons_of_outside {c : Char} (h : isOutsideBraces c = true) (depth : Nat)
    (s : Text) :
    closeBlock? depth (c :: s) = (closeBlock? depth s).map fun (b, r) => (c :: b, r) := by
  simp only [isOutsideBraces, Bool.and_eq_true, bne_iff_ne] at h
  rw [closeBlock?.eq_def]
  simp only [if_neg h.1, if_neg h.2]

theorem closeBlock?_cons_open (depth : Nat) (s : Text) :
    closeBlock? depth ('\x7b' :: s) =
      (closeBlock? (depth + 1) s).map fun (b, r) => ('\x7b' :: b, r) := by
  rw [closeBlock?.eq_def]
  rfl

theorem closeBlock?_cons_close (depth : Nat) (s : Text) :
    closeBlock? (depth + 1) ('\x7d' :: s) =
      (closeBlock? depth s).map fun (b, r) => ('\x7d' :: b, r) := by
  rw [closeBlock?.eq_def]
  rfl

/-- A balanced text in front leaves the counter of open braces where it was. -/
theorem closeBlock?_balanced {s : Text} (h : Balanced s) (depth : Nat) (t : Text) :
    closeBlock? depth (s ++ t) = (closeBlock? depth t).map fun (b, r) => (s ++ b, r) := by
  induction h generalizing depth t with
  | nil => simp
  | @plain c s hc _ ih =>
    rw [List.cons_append, closeBlock?_cons_of_outside hc, ih, Option.map_map]
    rfl
  | @block u v _ _ ihu ihv =>
    -- The inner text is read one level deeper; its closing brace comes back to this level.
    rw [List.cons_append, List.cons_append, closeBlock?_cons_open, List.append_assoc, ihu,
      List.cons_append, closeBlock?_cons_close, ihv]
    simp [Option.map_map, Function.comp_def]

theorem closeBlock?_body {s : Text} (h : Balanced s) (t : Text) :
    closeBlock? 0 (s ++ '\x7d' :: t) = some (s, t) := by
  rw [closeBlock?_balanced h]
  simp [closeBlock?]

/-! ## The trees that can be printed -/

/-- Characters of preludes and statements. -/
def isPreludeChar (c : Char) : Bool := isOutsideBraces c && c != ';'

/-- A text in front of the block of an at-rule. -/
structure IsAtPrelude (prelude : Text) : Prop where
  head : prelude.head? = some '@'
  chars : ∀ c ∈ prelude, isPreludeChar c = true
  trimmed : trim prelude = prelude

/-- A selector among those of a rule. -/
structure IsSelector (selector : Text) : Prop where
  ne_nil : selector ≠ []
  chars : ∀ c ∈ selector, isPreludeChar c = true ∧ c ≠ ','
  trimmed : trim selector = selector

mutual

/-- What makes an item of each kind one of this kind: a statement ends at its only semicolon, the
names of at-rules decide whether their blocks hold rules, and a rule is no at-rule. -/
def Item.IsProper : Item → Prop
  | .statement text => ∃ s, text = '@' :: s ++ [';'] ∧ ∀ c ∈ s, isPreludeChar c = true
  | .untouched text =>
    ∃ prelude body, text = prelude ++ '\x7b' :: body ++ ['\x7d'] ∧ IsAtPrelude prelude ∧
      atRuleName prelude ∉ groupNames ∧ Balanced body
  | .group prelude items =>
    IsAtPrelude prelude ∧ atRuleName prelude ∈ groupNames ∧ AreProper items
  | .rule selectors body =>
    selectors ≠ [] ∧ (∀ s ∈ selectors, IsSelector s) ∧
      (∀ s ∈ selectors.head?, s.head? ≠ some '@') ∧ ∀ c ∈ body, isOutsideBraces c = true

/-- Every item of a list is proper. -/
def AreProper : List Item → Prop
  | [] => True
  | item :: rest => item.IsProper ∧ AreProper rest

end

theorem isOutsideBraces_of_isPreludeChar {c : Char} (h : isPreludeChar c = true) :
    isOutsideBraces c = true := by
  rw [isPreludeChar, Bool.and_eq_true] at h
  exact h.1

theorem isOutsideBraces_of_mem_statement {s : Text} (h : ∀ c ∈ s, isPreludeChar c = true) :
    ∀ c ∈ '@' :: s ++ [';'], isOutsideBraces c = true := by
  intro c hc
  rw [List.cons_append, List.mem_cons, List.mem_append, List.mem_singleton] at hc
  rcases hc with rfl | hc | rfl
  · decide
  · exact isOutsideBraces_of_isPreludeChar (h c hc)
  · decide

theorem not_mem_of_isPreludeChar {s : Text} (h : ∀ c ∈ s, isPreludeChar c = true) : ';' ∉ s :=
  fun hmem => absurd (h ';' hmem) (by decide)

/-- A text in front of a block. -/
structure IsPrelude (prelude : Text) : Prop where
  starts : ∃ c ∈ prelude.head?, isBlank c = false
  chars : ∀ c ∈ prelude, isPreludeChar c = true

theorem IsPrelude.ne_nil {p : Text} (h : IsPrelude p) : p ≠ [] := by
  rintro rfl
  obtain ⟨c, hc, -⟩ := h.starts
  cases hc

theorem IsPrelude.not_blank_of_head? {p : Text} (h : IsPrelude p) :
    ∀ c ∈ p.head?, isBlank c = false := by
  obtain ⟨c, hc, hblank⟩ := h.starts
  intro d hd
  obtain rfl := Option.mem_unique hc hd
  exact hblank

theorem IsPrelude.isOutsideBraces {p : Text} (h : IsPrelude p) :
    ∀ c ∈ p, isOutsideBraces c = true :=
  fun c hc => isOutsideBraces_of_isPreludeChar (h.chars c hc)

theorem IsAtPrelude.isPrelude {prelude : Text} (h : IsAtPrelude prelude) : IsPrelude prelude :=
  ⟨⟨'@', h.head, rfl⟩, h.chars⟩

/-! ## The text in front of the block of a rule -/

theorem head?_intercalate_selectors {s : Text} (parts : List Text) (h : s ≠ []) :
    (List.intercalate [','] (s :: parts)).head? = s.head? := by
  cases parts with
  | nil => simp
  | cons t parts =>
    obtain ⟨c, w, rfl⟩ := List.exists_cons_of_ne_nil h
    rw [List.intercalate_cons_cons, List.append_assoc, List.cons_append, List.head?_cons,
      List.head?_cons]

theorem getLast?_intercalate_selectors {parts : List Text} (h : ∀ s ∈ parts, s ≠ []) :
    (List.intercalate [','] parts).getLast? = parts.getLast?.bind List.getLast? := by
  induction parts with
  | nil => rfl
  | cons s parts ih =>
    cases parts with
    | nil => simp
    | cons t parts =>
      have htail := ih fun u hu => h u (List.mem_cons_of_mem s hu)
      have hlast : ∃ c, (List.intercalate [','] (t :: parts)).getLast? = some c := by
        rw [htail]
        have hmem := List.getLast_mem (List.cons_ne_nil t parts)
        rw [List.getLast?_eq_some_getLast (List.cons_ne_nil t parts), Option.bind_some,
          List.getLast?_eq_some_getLast (h _ (List.mem_cons_of_mem s hmem))]
        exact ⟨_, rfl⟩
      obtain ⟨c, hc⟩ := hlast
      rw [List.intercalate_cons_cons, List.getLast?_append, List.getLast?_cons_cons, ← htail, hc,
        Option.some_or]

/-- The selectors of a rule in one text: it is a prelude, it is trimmed, and it is split into the
same selectors again. -/
theorem intercalate_selectors {parts : List Text} (hne : parts ≠ [])
    (h : ∀ s ∈ parts, IsSelector s) :
    (∀ c ∈ List.intercalate [','] parts, isPreludeChar c = true) ∧
      trim (List.intercalate [','] parts) = List.intercalate [','] parts ∧
      selectors (List.intercalate [','] parts) = parts := by
  obtain ⟨s, rest, rfl⟩ := List.exists_cons_of_ne_nil hne
  refine ⟨?_, ?_, ?_⟩
  · intro c hc
    rcases mem_intercalate hc with rfl | ⟨part, hpart, hc⟩
    · decide
    · exact ((h part hpart).chars c hc).1
  · apply trim_eq_self
    · rw [head?_intercalate_selectors rest (h s (by simp)).ne_nil]
      exact head?_of_trim_eq_self (h s (by simp)).trimmed
    · rw [getLast?_intercalate_selectors fun t ht => (h t ht).ne_nil]
      intro c hc
      obtain ⟨t, ht, hc⟩ := Option.bind_eq_some_iff.1 hc
      exact getLast?_of_trim_eq_self (h t (List.mem_of_getLast? ht)).trimmed c hc
  · rw [selectors, splitOn_intercalate hne fun t ht hmem => ((h t ht).chars _ hmem).2 rfl]
    conv => rhs; rw [← List.map_id (s :: rest)]
    exact List.map_congr_left fun t ht => (h t ht).trimmed

theorem intercalate_ne_nil {parts : List Text} (hne : parts ≠ [])
    (h : ∀ s ∈ parts, IsSelector s) : List.intercalate [','] parts ≠ [] := by
  obtain ⟨s, rest, rfl⟩ := List.exists_cons_of_ne_nil hne
  intro he
  have hhead := head?_intercalate_selectors rest (h s (by simp)).ne_nil
  rw [he, List.head?_nil] at hhead
  exact (h s (by simp)).ne_nil (List.head?_eq_none_iff.1 hhead.symm)

theorem head?_intercalate_ne {parts : List Text} (hne : parts ≠ [])
    (h : ∀ s ∈ parts, IsSelector s) (hat : ∀ s ∈ parts.head?, s.head? ≠ some '@') :
    (List.intercalate [','] parts).head? ≠ some '@' := by
  obtain ⟨s, rest, rfl⟩ := List.exists_cons_of_ne_nil hne
  rw [head?_intercalate_selectors rest (h s (by simp)).ne_nil]
  exact hat s (by simp)

/-- White space around a prelude belongs to no selector. -/
theorem selectors_trim (prelude : Text) : selectors (trim prelude) = selectors prelude :=
  map_trim_splitOn_trim rfl prelude

/-- The rule is read off its prelude and its body without an error. -/
theorem parseRule_trim {prelude body : Text} (hchars : ∀ c ∈ prelude, isPreludeChar c = true)
    (hselectors : ∀ selector ∈ selectors prelude, selector ≠ [])
    (hbody : ∀ c ∈ body, isOutsideBraces c = true) :
    parseRule (trim prelude) body = .ok (.rule (selectors prelude) body) := by
  have hsemi : ';' ∉ trim prelude := fun hmem =>
    not_mem_of_isPreludeChar hchars (mem_of_mem_trim hmem)
  have hopen : '\x7b' ∉ body := fun hmem => absurd (hbody _ hmem) (by decide)
  have hempty : ¬ (selectors prelude).any List.isEmpty = true := by
    rw [List.any_eq_true]
    rintro ⟨s, hs, he⟩
    exact hselectors s hs (List.isEmpty_iff.1 he)
  rw [parseRule, selectors_trim, if_neg (by simpa using hsemi), if_neg (by simpa using hopen),
    if_neg hempty]

/-! ## Reading one item -/

/-- The first brace of a text, if there is one, is an opening one. -/
def OpensFirst (s : Text) : Prop := (run isOutsideBraces s).2.head? ≠ some '\x7d'

theorem run_append_of_outside {w : Text} (h : ∀ c ∈ w, isOutsideBraces c = true) (t : Text) :
    run isOutsideBraces (w ++ t) =
      (w ++ (run isOutsideBraces t).1, (run isOutsideBraces t).2) := by
  have ht := run_eq_iff.1 (rfl : run isOutsideBraces t = (_, _))
  refine run_eq_iff.2 ⟨?_, ?_, ht.2.2⟩
  · rw [List.append_assoc, run_append]
  · intro c hc
    rcases List.mem_append.1 hc with hc | hc
    · exact h c hc
    · exact ht.2.1 c hc

theorem OpensFirst.append {w t : Text} (h : ∀ c ∈ w, isOutsideBraces c = true)
    (ht : OpensFirst t) : OpensFirst (w ++ t) := by
  rw [OpensFirst, run_append_of_outside h]
  exact ht

theorem OpensFirst.block {w : Text} (h : ∀ c ∈ w, isOutsideBraces c = true) (t : Text) :
    OpensFirst (w ++ '\x7b' :: t) := by
  rw [OpensFirst, run_append_cons h rfl]
  simp

theorem balanced_block {prelude body : Text} (h : ∀ c ∈ prelude, isPreludeChar c = true)
    (hbody : Balanced body) : Balanced (prelude ++ '\x7b' :: body ++ ['\x7d']) := by
  rw [List.append_assoc]
  apply Balanced.append
  · exact .ofPlain fun c hc => isOutsideBraces_of_isPreludeChar (h c hc)
  · exact .block hbody .nil

theorem opensFirst_block {prelude : Text} (h : ∀ c ∈ prelude, isPreludeChar c = true)
    (body rest : Text) : OpensFirst (prelude ++ '\x7b' :: body ++ ['\x7d'] ++ rest) := by
  rw [List.append_assoc, List.append_assoc]
  exact .block (fun c hc => isOutsideBraces_of_isPreludeChar (h c hc)) _

/-- A statement is read up to its semicolon, unless a closing brace comes before any opening one. -/
theorem parseItems_statement {s rest : Text} {items : List Item}
    (hs : ∀ c ∈ s, isPreludeChar c = true) (hrest : OpensFirst rest)
    (h : ∀ offset, parseItems offset rest = .ok items) (offset : Nat) :
    parseItems offset (('@' :: s ++ [';']) ++ rest) =
      .ok (.statement ('@' :: s ++ [';']) :: items) := by
  have hrun := run_append_of_outside (isOutsideBraces_of_mem_statement hs) rest
  have hbreak : breakAt? [';'] ('@' :: (s ++ ';' :: rest)) = some ('@' :: s, rest) := by
    refine breakAt?_append_cons (s := '@' :: s) ?_ rest
    rw [List.mem_cons, not_or]
    exact ⟨by decide, not_mem_of_isPreludeChar hs⟩
  rw [OpensFirst] at hrest
  rw [show ('@' :: s ++ [';']) ++ rest = '@' :: (s ++ ';' :: rest) by simp] at hrun ⊢
  rw [parseItems, if_neg (by decide)]
  split
  · rename_i head tail hrun'
    rw [hrun, Prod.mk.injEq] at hrun'
    rw [hrun'.2] at hrest
    exact absurd rfl hrest
  · rename_i head tail hclose hrun'
    rw [hrun, Prod.mk.injEq] at hrun'
    rw [if_pos ⟨rfl, by simp [← hrun'.1]⟩]
    split
    · rename_i hnone
      rw [hbreak] at hnone
      cases hnone
    · rename_i statement rest' hsome
      rw [hbreak] at hsome
      cases hsome
      rw [h]
      rfl

/-- What a block is read as, once its prelude and its body are known. The white space at the end of
a prelude belongs to a block that is left alone, and to no other. -/
def blockItem (offset : Nat) (prelude body : Text) : Except StyleError Item :=
  if prelude.head? = some '@' then
    if atRuleName (trim prelude) ∈ groupNames then
      Item.group (trim prelude) <$> parseItems (offset + prelude.length + 1) body
    else pure (.untouched (prelude ++ '\x7b' :: body ++ ['\x7d']))
  else parseRule (trim prelude) body

/-- What follows both branches follows the choice between them. -/
theorem ite_bind_bind {ε α β : Type} {P : Prop} [Decidable P] (x y : Except ε α)
    (f : α → Except ε β) : (if P then x >>= f else y >>= f) = (if P then x else y) >>= f := by
  split
  · rfl
  · rfl

/-- A block is read up to the brace that closes it, and what it is depends on its prelude and its
body alone. -/
theorem parseItems_block {prelude body rest : Text} {item : Item} {items : List Item}
    (hne : prelude ≠ []) (hhead : ∀ c ∈ prelude.head?, isBlank c = false)
    (hchars : ∀ c ∈ prelude, isPreludeChar c = true) (hbody : Balanced body) (offset : Nat)
    (hitem : blockItem offset prelude body = .ok item)
    (h : ∀ offset, parseItems offset rest = .ok items) :
    parseItems offset (prelude ++ '\x7b' :: body ++ ['\x7d'] ++ rest) = .ok (item :: items) := by
  obtain ⟨c, w, rfl⟩ := List.exists_cons_of_ne_nil hne
  have hblank : isBlank c = false := hhead c (by simp)
  have hsemi : ';' ∉ c :: w := not_mem_of_isPreludeChar hchars
  have hrun : run isOutsideBraces (c :: (w ++ '\x7b' :: (body ++ '\x7d' :: rest))) =
      (c :: w, '\x7b' :: (body ++ '\x7d' :: rest)) :=
    run_append_cons (fun d hd => isOutsideBraces_of_isPreludeChar (hchars d hd)) rfl
  have hclose := closeBlock?_body hbody rest
  have hprelude : ¬ (trim (c :: w)).isEmpty = true := by
    rw [List.isEmpty_iff]
    intro hnil
    obtain ⟨v, v', hcut, hv, hv'⟩ := exists_eq_append_trim (c :: w)
    have hc : c ∈ v ++ v' := by
      rw [hnil, List.append_nil] at hcut
      rw [← hcut]
      exact List.mem_cons_self
    rw [(List.mem_append.1 hc).elim (hv c) (hv' c)] at hblank
    cases hblank
  rw [show c :: w ++ '\x7b' :: body ++ ['\x7d'] ++ rest =
    c :: (w ++ '\x7b' :: (body ++ '\x7d' :: rest)) by simp]
  rw [parseItems, hblank, if_neg Bool.false_ne_true]
  split
  · rename_i head tail hrun'
    rw [hrun] at hrun'
    cases hrun'
  · rename_i head tail hopen hrun'
    rw [hrun] at hrun'
    cases hrun'
    rw [if_neg fun hs => hsemi hs.2]
    simp only [if_neg hprelude]
    split
    · rename_i hnone
      rw [hclose] at hnone
      cases hnone
    · rename_i body' rest' hsome
      rw [hclose] at hsome
      cases hsome
      rw [blockItem, List.head?_cons] at hitem
      simp only [Option.some.injEq] at hitem
      simp only [ite_bind_bind]
      rw [hitem]
      simp only [h]
      rfl

/-! ## Trees as they are written -/

mutual

/-- An item as it is read, where `list` tells the selectors that a prelude lists. -/
def Item.readWith (list : Text → List Text) : Item → Item
  | .statement text => .statement text
  | .untouched text => .untouched text
  | .group prelude items => .group (trim prelude) (readItemsWith list items)
  | .rule selectors body => .rule (list ([','].intercalate selectors)) body

/-- A list of items as they are read. -/
def readItemsWith (list : Text → List Text) : List Item → List Item
  | [] => []
  | item :: rest => item.readWith list :: readItemsWith list rest

end

mutual

/-- What makes the text of an item that of one item of its kind: a rule lists no selector that is
empty. -/
def Item.IsWritten (list : Text → List Text) : Item → Prop
  | .statement text => ∃ s, text = '@' :: s ++ [';'] ∧ ∀ c ∈ s, isPreludeChar c = true
  | .untouched text =>
    ∃ prelude body, text = prelude ++ '\x7b' :: body ++ ['\x7d'] ∧ IsPrelude prelude ∧
      prelude.head? = some '@' ∧ atRuleName (trim prelude) ∉ groupNames ∧ Balanced body
  | .group prelude items =>
    IsPrelude prelude ∧ prelude.head? = some '@' ∧ atRuleName (trim prelude) ∈ groupNames ∧
      AreWritten list items
  | .rule selectors body =>
    IsPrelude ([','].intercalate selectors) ∧ ([','].intercalate selectors).head? ≠ some '@' ∧
      (∀ selector ∈ list ([','].intercalate selectors), selector ≠ []) ∧
      ∀ c ∈ body, isOutsideBraces c = true

/-- The same for a list of items. -/
def AreWritten (list : Text → List Text) : List Item → Prop
  | [] => True
  | item :: rest => item.IsWritten list ∧ AreWritten list rest

end

section

variable {list : Text → List Text}

mutual

theorem Item.balanced_print : (item : Item) → item.IsWritten list → Balanced item.print
  | .statement text, h => by
    obtain ⟨s, rfl, hs⟩ := h
    exact Balanced.ofPlain (isOutsideBraces_of_mem_statement hs)
  | .untouched text, h => by
    obtain ⟨prelude, body, rfl, hprelude, -, -, hbody⟩ := h
    exact balanced_block hprelude.chars hbody
  | .group prelude items, h => balanced_block h.1.chars (balanced_printItems items h.2.2.2)
  | .rule selectors body, h => balanced_block h.1.chars (.ofPlain h.2.2.2)

/-- The braces of a written tree are paired. -/
theorem balanced_printItems : (items : List Item) → AreWritten list items →
    Balanced (printItems items)
  | [], _ => .nil
  | item :: rest, h => (item.balanced_print h.1).append (balanced_printItems rest h.2)

end

/-- The first brace of a written tree is an opening one. -/
theorem opensFirst_printItems {items : List Item} (h : AreWritten list items) :
    OpensFirst (printItems items) := by
  induction items with
  | nil => simp [OpensFirst, printItems, run]
  | cons item rest ih =>
    obtain ⟨hitem, hrest⟩ := h
    rw [printItems]
    cases item with
    | statement text =>
      obtain ⟨s, rfl, hs⟩ := hitem
      exact OpensFirst.append (isOutsideBraces_of_mem_statement hs) (ih hrest)
    | untouched text =>
      obtain ⟨prelude, body, rfl, hprelude, -⟩ := hitem
      exact opensFirst_block hprelude.chars body _
    | group prelude items => exact opensFirst_block hitem.1.chars (printItems items) _
    | rule selectors body => exact opensFirst_block hitem.1.chars body _

end

mutual

/-- An item is read in front of whatever is read at every offset. -/
theorem parseItems_print_append : (item : Item) → item.IsWritten selectors → ∀ {rest : Text}
    {items : List Item}, OpensFirst rest → (∀ offset, parseItems offset rest = .ok items) →
    ∀ offset, parseItems offset (item.print ++ rest) = .ok (item.readWith selectors :: items)
  | .statement text, h, rest, items, hopen, hrest, offset => by
    obtain ⟨s, rfl, hs⟩ := h
    exact parseItems_statement hs hopen hrest offset
  | .untouched text, h, rest, items, _, hrest, offset => by
    obtain ⟨prelude, body, rfl, hprelude, hat, hname, hbody⟩ := h
    refine parseItems_block hprelude.ne_nil hprelude.not_blank_of_head? hprelude.chars hbody offset
      ?_ hrest
    rw [blockItem, if_pos hat, if_neg hname]
    rfl
  | .group prelude items', h, rest, items, _, hrest, offset => by
    obtain ⟨hprelude, hat, hname, hitems⟩ := h
    refine parseItems_block hprelude.ne_nil hprelude.not_blank_of_head? hprelude.chars
      (balanced_printItems items' hitems) offset ?_ hrest
    rw [blockItem, if_pos hat, if_pos hname, parseItems_written items' hitems]
    rfl
  | .rule parts body, h, rest, items, _, hrest, offset => by
    obtain ⟨hprelude, hat, hselectors, hbody⟩ := h
    refine parseItems_block hprelude.ne_nil hprelude.not_blank_of_head? hprelude.chars
      (.ofPlain hbody) offset ?_ hrest
    rw [blockItem, if_neg hat, parseRule_trim hprelude.chars hselectors hbody]
    rfl

/-- A written tree is read, at every offset as the same tree. -/
theorem parseItems_written : (items : List Item) → AreWritten selectors items → ∀ offset,
    parseItems offset (printItems items) = .ok (readItemsWith selectors items)
  | [], _, offset => by rw [printItems, parseItems, readItemsWith]
  | item :: rest, h, offset => by
    rw [printItems]
    exact parseItems_print_append item h.1 (opensFirst_printItems h.2)
      (parseItems_written rest h.2) offset

end

/-! ## Reading back a printed tree -/

mutual

/-- A proper item is written as one and read as it is. -/
theorem Item.IsProper.isWritten : (item : Item) → item.IsProper →
    item.IsWritten selectors ∧ item.readWith selectors = item
  | .statement text, h => ⟨h, rfl⟩
  | .untouched text, h => by
    obtain ⟨prelude, body, htext, hprelude, hname, hbody⟩ := h
    rw [← hprelude.trimmed] at hname
    exact ⟨⟨prelude, body, htext, hprelude.isPrelude, hprelude.head, hname, hbody⟩, rfl⟩
  | .group prelude items, h => by
    obtain ⟨hprelude, hname, hitems⟩ := h
    obtain ⟨hwritten, hread⟩ := AreProper.areWritten items hitems
    rw [← hprelude.trimmed] at hname
    refine ⟨⟨hprelude.isPrelude, hprelude.head, hname, hwritten⟩, ?_⟩
    rw [Item.readWith, hread, hprelude.trimmed]
  | .rule parts body, h => by
    obtain ⟨hne, hselectors, hhead, hbody⟩ := h
    obtain ⟨hchars, htrim, hsplit⟩ := intercalate_selectors hne hselectors
    obtain ⟨c, w, hc⟩ := List.exists_cons_of_ne_nil (intercalate_ne_nil hne hselectors)
    have hblank := head?_of_trim_eq_self htrim
    rw [Item.readWith, hsplit]
    refine ⟨⟨⟨⟨c, by rw [hc]; rfl, hblank c (by rw [hc]; rfl)⟩, hchars⟩,
      head?_intercalate_ne hne hselectors hhead, ?_, hbody⟩, rfl⟩
    rw [hsplit]
    exact fun selector hmem => (hselectors selector hmem).ne_nil

theorem AreProper.areWritten : (items : List Item) → AreProper items →
    AreWritten selectors items ∧ readItemsWith selectors items = items
  | [], _ => ⟨trivial, rfl⟩
  | item :: rest, h => by
    obtain ⟨hitem, hread⟩ := Item.IsProper.isWritten item h.1
    obtain ⟨hrest, hreadRest⟩ := AreProper.areWritten rest h.2
    exact ⟨⟨hitem, hrest⟩, by rw [readItemsWith, hread, hreadRest]⟩

end

/-- A printed tree is read back as itself, at every offset. -/
theorem parseItems_printItems {items : List Item} (h : AreProper items) (offset : Nat) :
    parseItems offset (printItems items) = .ok items := by
  obtain ⟨hwritten, hread⟩ := AreProper.areWritten items h
  rw [parseItems_written items hwritten, hread]

/-! ## Selectors of the root element -/

/-- The selector begins with a name of the root element, in letters of any case, and `rest` follows
this name and does not continue it. -/
def NamesRoot (selector rest : Text) : Prop :=
  ∃ name ∈ [[':', 'r', 'o', 'o', 't'], ['s', 'v', 'g']], ∃ form,
    List.Forall₂ (fun letter c => sameLetter letter c = true) name form ∧
      selector = form ++ rest ∧ ∀ c ∈ rest.head?, isWordChar c = false ∧ c ≠ '-'

/-- The two names of the root element begin with different characters. -/
theorem keyword?_root_of_svg {selector form rest : Text}
    (hform : List.Forall₂ (fun letter c => sameLetter letter c = true) ['s', 'v', 'g'] form)
    (hs : selector = form ++ rest) : keyword? [':', 'r', 'o', 'o', 't'] selector = none := by
  cases hform with
  | @cons _ c _ _ hc _ =>
    have hcolon : sameLetter ':' c = false := by
      rw [← Bool.not_eq_true]
      intro hcolon
      simp only [sameLetter, Bool.or_eq_true, Bool.and_eq_true, beq_iff_eq,
        Char.reduceEq, false_and, or_false] at hc hcolon
      rcases hc with hc | ⟨-, rfl⟩
      · rw [hcolon] at hc
        exact absurd hc (by decide)
      · exact absurd hcolon (by decide)
    rw [hs, List.cons_append, keyword?, hcolon]
    rfl

theorem behindRoot?_eq_some_iff {selector rest : Text} :
    behindRoot? selector = some rest ↔ NamesRoot selector rest := by
  rw [behindRoot?, Option.filter_eq_some_iff, Option.map_eq_some_iff]
  constructor
  · rintro ⟨⟨⟨form, rest⟩, hfound, rfl⟩, hnext⟩
    have hcontinued : ∀ c ∈ rest.head?, isWordChar c = false ∧ c ≠ '-' := by
      cases rest with
      | nil => simp
      | cons c rest => simpa using hnext
    rw [Option.or_eq_some_iff, keyword?_eq_some_iff, keyword?_eq_some_iff] at hfound
    rcases hfound with ⟨hform, hs⟩ | ⟨-, hform, hs⟩
    · exact ⟨_, by simp, form, hform, hs, hcontinued⟩
    · exact ⟨_, by simp, form, hform, hs, hcontinued⟩
  · rintro ⟨name, hname, form, hform, hs, hcontinued⟩
    refine ⟨⟨(form, rest), ?_, rfl⟩, ?_⟩
    swap
    · cases rest with
      | nil => rfl
      | cons c rest => simpa using hcontinued
    rw [Option.or_eq_some_iff]
    simp only [List.mem_cons, List.not_mem_nil, or_false] at hname
    rcases hname with rfl | rfl
    · exact .inl (keyword?_eq_some_iff.2 ⟨hform, hs⟩)
    · refine .inr ⟨?_, keyword?_eq_some_iff.2 ⟨hform, hs⟩⟩
      exact keyword?_root_of_svg hform hs

/-- **Scoping is structural.** Scoping the text of a tree succeeds and gives the text of the same
tree with every selector of every rule, at any depth of groups, put under the scope: the scope takes
the place of a name of the root element, and stands in front of any other selector with a space
between them. -/
theorem scope_printItems {items : List Item} (h : AreProper items) (scopeText : Text) :
    scope (printItems items) scopeText = .ok (printItems (scopedItems scopeText items)) ∧
      (∀ selector rest, NamesRoot selector rest →
        scopedSelector scopeText selector = scopeText ++ rest) ∧
      ∀ selector, (¬ ∃ rest, NamesRoot selector rest) →
        scopedSelector scopeText selector = scopeText ++ ' ' :: selector := by
  refine ⟨?_, ?_, ?_⟩
  · rw [scope, parse, parseItems_printItems h]
    rfl
  · intro selector rest hroot
    rw [scopedSelector, behindRoot?_eq_some_iff.2 hroot]
  · intro selector hroot
    cases hbehind : behindRoot? selector with
    | some rest => exact absurd ⟨rest, behindRoot?_eq_some_iff.1 hbehind⟩ hroot
    | none => rw [scopedSelector, hbehind]

/-- A statement and a group, with a rule of two selectors and a block of another kind inside. -/
theorem scope_printItems_media :
    AreProper [.statement "@import a;".toList,
        .group "@media print".toList
          [.rule ["svg.b".toList, "c".toList] "d:e".toList, .untouched "@font-face{f{g}}".toList]] ∧
      scope "@import a;@media print{svg.b,c{d:e}@font-face{f{g}}}".toList ".h".toList =
        .ok "@import a;@media print{.h.b,.h c{d:e}@font-face{f{g}}}".toList := by
  have hface : IsAtPrelude "@font-face".toList := ⟨rfl, forall_mem_of_all rfl, rfl⟩
  have hmedia : IsAtPrelude "@media print".toList := ⟨rfl, forall_mem_of_all rfl, rfl⟩
  have hselectors : ∀ s ∈ ["svg.b".toList, "c".toList], IsSelector s := by
    intro s hs
    simp only [List.mem_cons, List.not_mem_nil, or_false] at hs
    rcases hs with rfl | rfl
    · exact ⟨by decide, forall_mem_of_all rfl, rfl⟩
    · exact ⟨by decide, forall_mem_of_all rfl, rfl⟩
  have hproper : AreProper [.statement "@import a;".toList,
      .group "@media print".toList
        [.rule ["svg.b".toList, "c".toList] "d:e".toList,
          .untouched "@font-face{f{g}}".toList]] := by
    refine ⟨⟨"import a".toList, rfl, forall_mem_of_all rfl⟩,
      ⟨hmedia, by decide +kernel, ?_, ?_, trivial⟩, trivial⟩
    · exact ⟨by decide, hselectors, by decide +kernel, forall_mem_of_all rfl⟩
    · refine ⟨"@font-face".toList, "f{g}".toList, rfl, hface, by decide +kernel, ?_⟩
      exact .plain rfl (.block (.plain rfl .nil) .nil)
  exact ⟨hproper, (scope_printItems hproper ".h".toList).1⟩

end SvgAssets.Stylesheet
