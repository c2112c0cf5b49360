/-
# SvgAssets.Proofs.Stylesheet.Grammar -- the style sheets that are accepted

The reader of style sheets has seven ways to fail, chosen by where the next braces and the next
semicolon stand. Here the texts on which it does not fail are told by a grammar: a sheet is a
sequence of white space and items, and an item is a statement `@…;` or a block, of which the prelude
says what its body has to be (`IsSheet`). The counter of open braces and the pairing of braces are
the same thing (`closeBlock?_eq_some_iff`), so the reader fails exactly outside the grammar
(`scope_fails_iff`).
-/
import SvgAssets.Proofs.Stylesheet.Structure
import SvgAssets.Proofs.Text.Replacing

namespace SvgAssets.Stylesheet

open Text

/-! ## Blocks found by counting -/

/-- A text with `depth` closing braces that close nothing in it; around them braces are paired. -/
inductive ClosesBelow : Nat → Text → Prop
  | zero {s : Text} : Balanced s → ClosesBelow 0 s
  | succ {depth : Nat} {s t : Text} : Balanced s → ClosesBelow depth t →
    ClosesBelow (depth + 1) (s ++ '\x7d' :: t)

theorem ClosesBelow.plain {depth : Nat} {c : Char} {s : Text} (hc : isOutsideBraces c = true)
    (h : ClosesBelow depth s) : ClosesBelow depth (c :: s) := by
  cases h with
  | zero hs => exact .zero (.plain hc hs)
  | succ hs ht => exact .succ (.plain hc hs) ht

/-- An opening brace in front is closed by the first brace that closed nothing. -/
theorem ClosesBelow.open {depth : Nat} {s : Text} (h : ClosesBelow (depth + 1) s) :
    ClosesBelow depth ('\x7b' :: s) := by
  cases h with
  | @succ _ u v hu hv =>
    cases hv with
    | zero hv => exact .zero (.block hu hv)
    | @succ depth v w hv hw =>
      rw [show '\x7b' :: (u ++ '\x7d' :: (v ++ '\x7d' :: w)) =
        ('\x7b' :: u ++ '\x7d' :: v) ++ '\x7d' :: w by simp]
      exact .succ (.block hu hv) hw

theorem closesBelow_of_closeBlock? {depth : Nat} {s body rest : Text}
    (h : closeBlock? depth s = some (body, rest)) : ClosesBelow depth body := by
  fun_induction closeBlock? depth s generalizing body rest with
  | case1 => cases h
  | case2 depth s ih =>
    obtain ⟨⟨b, r⟩, hb, he⟩ := Option.map_eq_some_iff.1 h
    cases he
    exact (ih hb).open
  | case3 s =>
    cases h
    exact .zero .nil
  | case4 s depth _ ih =>
    obtain ⟨⟨b, r⟩, hb, he⟩ := Option.map_eq_some_iff.1 h
    cases he
    exact .succ .nil (ih hb)
  | case5 depth c s hopen hclose ih =>
    obtain ⟨⟨b, r⟩, hb, he⟩ := Option.map_eq_some_iff.1 h
    cases he
    exact (ih hb).plain (by simp [isOutsideBraces, hopen, hclose])

/-- **Counting finds the paired brace.** -/
theorem closeBlock?_eq_some_iff {s body rest : Text} :
    closeBlock? 0 s = some (body, rest) ↔ Balanced body ∧ s = body ++ '\x7d' :: rest := by
  constructor
  · intro h
    refine ⟨?_, closeBlock?_eq_some h⟩
    cases closesBelow_of_closeBlock? h with
    | zero hbody => exact hbody
  · rintro ⟨hbody, rfl⟩
    exact closeBlock?_body hbody rest

/-! ## The grammar -/

/-- How the block of an at-rule is read: which preludes name a group, and how much of the body of a
group counts. -/
structure Reading where
  namesGroup : Text → Bool
  content : Text → Text
  balanced_of_content : ∀ body, Balanced (content body) → Balanced body

/-- The style sheets in a reading: sequences of white space, statements and blocks. -/
inductive IsSheet (r : Reading) : Text → Prop
  | nil : IsSheet r []
  | blank {c : Char} {s : Text} : isBlank c = true → IsSheet r s → IsSheet r (c :: s)
  /-- A statement runs from an `@` to the next semicolon. -/
  | statement {t s : Text} : (∀ c ∈ t, isPreludeChar c = true) → IsSheet r s →
    IsSheet r ('@' :: t ++ ';' :: s)
  /-- The body of a group is a style sheet. -/
  | group {p body s : Text} : IsPrelude p → p.head? = some '@' → r.namesGroup p = true →
    IsSheet r (r.content body) → IsSheet r s → IsSheet r (p ++ '\x7b' :: (body ++ '\x7d' :: s))
  /-- The body of any other at-rule has paired braces. -/
  | untouched {p body s : Text} : IsPrelude p → p.head? = some '@' → r.namesGroup p = false →
    Balanced body → IsSheet r s → IsSheet r (p ++ '\x7b' :: (body ++ '\x7d' :: s))
  /-- The body of a rule has no braces, and none of its selectors is blank. -/
  | rule {p body s : Text} : IsPrelude p → p.head? ≠ some '@' →
    (∀ part ∈ splitOn ',' p, ∃ c ∈ part, isBlank c = false) →
    (∀ c ∈ body, isOutsideBraces c = true) → IsSheet r s →
    IsSheet r (p ++ '\x7b' :: (body ++ '\x7d' :: s))

/-- The name of an at-rule reaches up to a space or a parenthesis, and the white space at the end of
the prelude does not belong to it. -/
def isGroupPrelude (prelude : Text) : Bool := groupNames.contains (atRuleName (trim prelude))

/-- Style sheets as they are read. -/
def Reading.asWritten : Reading where
  namesGroup := isGroupPrelude
  content := id
  balanced_of_content _ h := h

/-! ## Blank selectors -/

/-- Whether each part of a text between commas is blank. White space makes no difference to it. -/
def blankParts : Text → List Bool
  | [] => [true]
  | c :: s => if c = ',' then true :: blankParts s else (blankParts s).modifyHead (isBlank c && ·)

theorem map_splitOn_eq_blankParts (s : Text) :
    (splitOn ',' s).map (·.all isBlank) = blankParts s := by
  induction s with
  | nil => rfl
  | cons c s ih =>
    rw [blankParts]
    split
    · rename_i hc
      rw [hc, splitOn_cons_self, List.map_cons, ih]
      rfl
    · rename_i hc
      rw [splitOn_cons_of_ne hc, ← ih]
      cases splitOn ',' s with
      | nil => rfl
      | cons part parts => simp

theorem forall_splitOn_iff {s : Text} :
    (∀ part ∈ splitOn ',' s, ∃ c ∈ part, isBlank c = false) ↔ true ∉ blankParts s := by
  rw [← map_splitOn_eq_blankParts]
  simp

theorem blankParts_filter (s : Text) :
    blankParts (s.filter fun c => !isBlank c) = blankParts s := by
  induction s with
  | nil => rfl
  | cons c s ih =>
    cases hc : isBlank c with
    | true =>
      have hcomma : c ≠ ',' := by
        rintro rfl
        exact absurd hc (by decide)
      rw [List.filter_cons_of_neg (by simp [hc]), ih, blankParts, if_neg hcomma, hc]
      cases blankParts s <;> simp
    | false =>
      rw [List.filter_cons_of_pos (by simp [hc]), blankParts, blankParts, ih]

theorem trim_isEmpty_iff {s : Text} : (trim s).isEmpty = s.all isBlank := by
  rw [Bool.eq_iff_iff, List.isEmpty_iff, List.all_eq_true]
  constructor
  · intro hnil
    obtain ⟨v, w, hs, hv, hw⟩ := exists_eq_append_trim s
    rw [hnil, List.append_nil] at hs
    rw [hs]
    exact fun c hc => (List.mem_append.1 hc).elim (hv c) (hw c)
  · intro h
    by_contra hne
    obtain ⟨c, hc⟩ := List.exists_mem_of_ne_nil _ hne
    have hhead := head?_dropAround (q := isBlank) (s := s)
    obtain ⟨d, w, hd⟩ := List.exists_cons_of_ne_nil hne
    have hblank : isBlank d = false := hhead d (by rw [trim] at hd; rw [hd]; rfl)
    rw [h d (mem_of_mem_trim (by rw [hd]; exact List.mem_cons_self))] at hblank
    cases hblank

theorem any_selectors_trim (p : Text) :
    (selectors (trim p)).any List.isEmpty = (blankParts p).any id := by
  rw [selectors_trim, selectors, List.any_map, ← map_splitOn_eq_blankParts, List.any_map]
  congr 1
  funext part
  exact trim_isEmpty_iff

/-! ## Reading what is in the grammar -/

/-- Two steps succeed together when both do. -/
theorem exists_of_bind_eq_ok {ε α β : Type} {x : Except ε α} {f : α → Except ε β} {b : β}
    (h : (x >>= f) = .ok b) : ∃ a, x = .ok a ∧ f a = .ok b := by
  cases x with
  | error e => cases h
  | ok a => exact ⟨a, rfl, h⟩

/-- An item is read, and then the items behind it. -/
theorem exists_of_item_bind {offset : Nat} {x : Except StyleError Item} {rest : Text}
    {items : List Item}
    (h : (x >>= fun item => parseItems offset rest >>= fun others => pure (item :: others)) =
      .ok items) :
    ∃ item others, x = .ok item ∧ parseItems offset rest = .ok others ∧ items = item :: others := by
  obtain ⟨item, hitem, h⟩ := exists_of_bind_eq_ok h
  obtain ⟨others, hothers, hitems⟩ := exists_of_bind_eq_ok h
  exact ⟨item, others, hitem, hothers, (Except.ok.inj hitems).symm⟩

/-- An `@` and a semicolon in front of the next brace make a statement. -/
theorem exists_statement {s head tail : Text} (hsplit : '@' :: s = head ++ tail)
    (hhead : ∀ d ∈ head, isOutsideBraces d = true) (hmem : ';' ∈ head) :
    ∃ t rest, '@' :: s = '@' :: t ++ ';' :: rest ∧ (∀ d ∈ t, isPreludeChar d = true) ∧
      breakAt? [';'] ('@' :: s) = some ('@' :: t, rest) := by
  obtain ⟨v, w, -, hv, hsemi⟩ := (breakAt?_cases ';' head).resolve_left fun h => h.2 hmem
  rw [hv, List.append_assoc, List.cons_append] at hsplit
  obtain ⟨t, rfl⟩ : ∃ t, v = '@' :: t := by
    cases v with
    | nil => cases hsplit
    | cons d t =>
      rw [List.cons_append, List.cons.injEq] at hsplit
      exact ⟨t, by rw [hsplit.1]⟩
  refine ⟨t, w ++ tail, hsplit, fun d hd => ?_, hsplit ▸ breakAt?_append_cons hsemi _⟩
  have hne : d ≠ ';' := fun he => hsemi (he ▸ List.mem_cons_of_mem _ hd)
  have hout := hhead d (by rw [hv]; exact List.mem_append_left _ (List.mem_cons_of_mem _ hd))
  simp [isPreludeChar, hout, hne]

/-- What is read at the start of a sheet: a statement, or a block that is an item, and the items
behind it. -/
theorem exists_of_parseItems {offset : Nat} {c : Char} {s : Text} {items : List Item}
    (hc : isBlank c = false) (h : parseItems offset (c :: s) = .ok items) :
    (∃ t rest offset' others, c :: s = '@' :: t ++ ';' :: rest ∧
      (∀ d ∈ t, isPreludeChar d = true) ∧ parseItems offset' rest = .ok others ∧
      items = .statement ('@' :: t ++ [';']) :: others) ∨
    ∃ p body rest offset' item others, c :: s = p ++ '\x7b' :: (body ++ '\x7d' :: rest) ∧
      (∀ d ∈ p, isOutsideBraces d = true) ∧ p.head? = some c ∧
      ((c = '@' → ';' ∉ p) ∧ Balanced body) ∧ blockItem offset p body = .ok item ∧
      parseItems offset' rest = .ok others ∧ items = item :: others := by
  rw [parseItems, hc, if_neg Bool.false_ne_true] at h
  split at h
  · cases h
  · rename_i head tail hclose hrun
    obtain ⟨hsplit, hhead, htail⟩ := run_eq_iff.1 hrun
    split at h
    · rename_i hstatement
      left
      obtain ⟨rfl, hmem⟩ := hstatement
      obtain ⟨t, rest, ht, hchars, hbreak⟩ := exists_statement hsplit hhead hmem
      rw [hbreak] at h
      obtain ⟨others, hothers, hitems⟩ := exists_of_bind_eq_ok h
      exact ⟨t, rest, _, others, ht, hchars, hothers, (Except.ok.inj hitems).symm⟩
    · rename_i hstatement
      right
      cases tail with
      | nil => cases h
      | cons brace inner =>
        simp only at h
        split at h
        · cases h
        · rename_i hprelude
          split at h
          · cases h
          · rename_i body rest hbody
            have hbrace : brace = '\x7b' := by
              have hnot := htail brace rfl
              have hopen : brace ≠ '\x7d' := fun he => hclose inner (he ▸ rfl)
              simpa [isOutsideBraces, hopen] using hnot
            obtain ⟨hbalanced, hinner⟩ := closeBlock?_eq_some_iff.1 hbody
            have hfirst : head.head? = some c := by
              cases head with
              | nil => exact absurd rfl hprelude
              | cons d head =>
                rw [List.cons_append, List.cons.injEq] at hsplit
                rw [hsplit.1]
                rfl
            simp only [ite_bind_bind] at h
            obtain ⟨item, others, hitem, hothers, hitems⟩ := exists_of_item_bind h
            refine ⟨head, body, rest, _, item, others, ?_, hhead, hfirst,
              ⟨fun hat hsemi => hstatement ⟨hat, hsemi⟩, hbalanced⟩, ?_, hothers, hitems⟩
            · rw [hsplit, hbrace, hinner]
            · rw [blockItem, hfirst]
              simpa only [Option.some.injEq] using hitem

/-! ## Rules -/

theorem Balanced.isOutsideBraces {s : Text} (h : Balanced s) (hopen : '\x7b' ∉ s) :
    ∀ c ∈ s, isOutsideBraces c = true := by
  induction h with
  | nil => exact fun c hc => absurd hc List.not_mem_nil
  | @plain c s hc _ ih =>
    rw [List.mem_cons, not_or] at hopen
    exact List.forall_mem_cons.2 ⟨hc, ih hopen.2⟩
  | block => exact absurd List.mem_cons_self hopen

theorem mem_trim_iff {c : Char} (hc : isBlank c = false) {s : Text} : c ∈ trim s ↔ c ∈ s := by
  refine ⟨mem_of_mem_trim, fun hmem => ?_⟩
  obtain ⟨v, w, hs, hv, hw⟩ := exists_eq_append_trim s
  have hnot : ∀ {u : Text}, (∀ d ∈ u, isBlank d = true) → c ∉ u := fun hu h =>
    absurd (hc.symm.trans (hu c h)) (by decide)
  rw [hs] at hmem
  rcases List.mem_append.1 hmem with hmem | hmem
  · exact (List.mem_append.1 hmem).resolve_left (hnot hv)
  · exact absurd hmem (hnot hw)

/-- A rule is read exactly where no semicolon stands in front of it, no block inside, and none of
its selectors is blank. -/
theorem exists_parseRule_iff {p body : Text} (hbody : Balanced body) :
    (∃ item, parseRule (trim p) body = .ok item) ↔
      ';' ∉ p ∧ (∀ part ∈ splitOn ',' p, ∃ c ∈ part, isBlank c = false) ∧
        ∀ c ∈ body, isOutsideBraces c = true := by
  have hopen : '\x7b' ∉ body ↔ ∀ c ∈ body, isOutsideBraces c = true :=
    ⟨hbody.isOutsideBraces, fun h hmem => absurd (h _ hmem) (by decide)⟩
  rw [← hopen, forall_splitOn_iff, ← mem_trim_iff (c := ';') rfl, parseRule, any_selectors_trim]
  simp only [List.contains_iff_mem]
  constructor
  · rintro ⟨item, h⟩
    split at h
    · cases h
    · split at h
      · cases h
      · split at h
        · cases h
        · rename_i hsemi hnested hblank
          exact ⟨hsemi, by simpa using hblank, hnested⟩
  · rintro ⟨hsemi, hblank, hnested⟩
    rw [if_neg hsemi, if_neg hnested, if_neg (by simpa using hblank)]
    exact ⟨_, rfl⟩

/-! ## Acceptance -/

variable {r : Reading} {s : Text}

/-- A class of characters without braces. -/
theorem isOutsideBraces_of_class {q : Char → Bool} (hopen : q '\x7b' = false)
    (hclose : q '\x7d' = false) {c : Char} (h : q c = true) : isOutsideBraces c = true := by
  rw [isOutsideBraces, Bool.and_eq_true, bne_iff_ne, bne_iff_ne]
  constructor
  · rintro rfl
    rw [h] at hopen
    cases hopen
  · rintro rfl
    rw [h] at hclose
    cases hclose

theorem isOutsideBraces_of_isBlank {c : Char} (h : isBlank c = true) : isOutsideBraces c = true :=
  isOutsideBraces_of_class rfl rfl h

theorem opensFirst_statement {t s : Text} (ht : ∀ c ∈ t, isPreludeChar c = true)
    (hs : OpensFirst s) : OpensFirst ('@' :: t ++ ';' :: s) := by
  rw [List.append_cons]
  exact .append (isOutsideBraces_of_mem_statement ht) hs

/-- The first brace of a sheet opens a block. -/
theorem IsSheet.opensFirst (h : IsSheet r s) : OpensFirst s := by
  induction h with
  | nil => simp [OpensFirst, run]
  | @blank c s hc _ ih =>
    refine OpensFirst.append (w := [c]) ?_ ih
    simpa using isOutsideBraces_of_isBlank hc
  | statement ht _ ih => exact opensFirst_statement ht ih
  | group hp => exact .block hp.isOutsideBraces _
  | untouched hp => exact .block hp.isOutsideBraces _
  | rule hp => exact .block hp.isOutsideBraces _

theorem IsPrelude.balanced_block {p body s : Text} (hp : IsPrelude p) (hbody : Balanced body)
    (hs : Balanced s) : Balanced (p ++ '\x7b' :: (body ++ '\x7d' :: s)) := by
  rw [← List.cons_append]
  exact (Balanced.ofPlain hp.isOutsideBraces).append (.block hbody hs)

/-- The braces of a sheet are paired. -/
theorem IsSheet.balanced (h : IsSheet r s) : Balanced s := by
  induction h with
  | nil => exact .nil
  | blank hc _ ih => exact .plain (isOutsideBraces_of_isBlank hc) ih
  | @statement t s ht _ ih =>
    rw [List.append_cons]
    exact (Balanced.ofPlain (isOutsideBraces_of_mem_statement ht)).append ih
  | @group p body s hp _ _ _ _ ihbody ihs =>
    exact hp.balanced_block (r.balanced_of_content body ihbody) ihs
  | untouched hp _ _ hbody _ ihs => exact hp.balanced_block hbody ihs
  | rule hp _ _ hbody _ ihs => exact hp.balanced_block (.ofPlain hbody) ihs

/-- What can be read as a block is one in the grammar, if its body is a sheet wherever it is read as
one. -/
theorem isSheet_of_blockItem {offset : Nat} {c : Char} {p body rest : Text} {item : Item}
    (hc : isBlank c = false) (hfirst : p.head? = some c)
    (houtside : ∀ d ∈ p, isOutsideBraces d = true) (hat : c = '@' → ';' ∉ p)
    (hbody : Balanced body) (hitem : blockItem offset p body = .ok item)
    (hsheet : ∀ offset items, parseItems offset body = .ok items → IsSheet .asWritten body)
    (hrest : IsSheet .asWritten rest) :
    IsSheet .asWritten (p ++ '\x7b' :: (body ++ '\x7d' :: rest)) := by
  have hprelude : ';' ∉ p → IsPrelude p := by
    intro hsemi
    refine ⟨⟨c, hfirst, hc⟩, fun d hd => ?_⟩
    have hne : d ≠ ';' := fun he => hsemi (he ▸ hd)
    simp [isPreludeChar, houtside d hd, hne]
  rw [blockItem, hfirst] at hitem
  split at hitem
  · rename_i hcat
    obtain rfl : c = '@' := Option.some.inj hcat
    split at hitem
    · rename_i hname
      have hgroup : isGroupPrelude p = true := List.contains_iff_mem.2 hname
      cases hitems : parseItems (offset + p.length + 1) body with
      | error e =>
        rw [hitems] at hitem
        cases hitem
      | ok items => exact .group (hprelude (hat rfl)) hfirst hgroup (hsheet _ _ hitems) hrest
    · rename_i hname
      have hother : isGroupPrelude p = false := by
        rw [← Bool.not_eq_true, isGroupPrelude, List.contains_iff_mem]
        exact hname
      exact .untouched (hprelude (hat rfl)) hfirst hother hbody hrest
  · rename_i hcat
    obtain ⟨hsemi, hparts, hplain⟩ := (exists_parseRule_iff hbody).1 ⟨item, hitem⟩
    exact .rule (hprelude hsemi) (hfirst ▸ hcat) hparts hplain hrest

/-- What is read is in the grammar. -/
theorem isSheet_of_parseItems {offset : Nat} {items : List Item}
    (h : parseItems offset s = .ok items) : IsSheet .asWritten s := by
  induction hn : s.length using Nat.strongRecOn generalizing s offset items with
  | ind n ih =>
    cases s with
    | nil => exact .nil
    | cons c s =>
      cases hc : isBlank c with
      | true =>
        rw [parseItems, if_pos hc] at h
        exact .blank hc (ih s.length (by simp [← hn]) h rfl)
      | false =>
        rcases exists_of_parseItems hc h with
          ⟨t, rest, offset', others, ht, hchars, hothers, -⟩ |
          ⟨p, body, rest, offset', item, others, hblock, houtside, hfirst, ⟨hat, hbody⟩, hitem,
            hothers, -⟩
        · rw [ht] at hn ⊢
          refine .statement hchars (ih rest.length ?_ hothers rfl)
          rw [← hn, List.length_append, List.length_cons, List.length_cons]
          omega
        · rw [hblock] at hn ⊢
          rw [List.length_append, List.length_cons, List.length_append, List.length_cons] at hn
          refine isSheet_of_blockItem hc hfirst houtside hat hbody hitem ?_
            (ih rest.length (by omega) hothers rfl)
          exact fun offset items hitems => ih body.length (by omega) hitems rfl

theorem exists_parseItems_block {p body rest : Text} (hp : IsPrelude p) (hbody : Balanced body)
    (hitem : ∃ item, ∀ offset, blockItem offset p body = .ok item)
    (hrest : ∃ items, ∀ offset, parseItems offset rest = .ok items) :
    ∃ items, ∀ offset,
      parseItems offset (p ++ '\x7b' :: (body ++ '\x7d' :: rest)) = .ok items := by
  obtain ⟨item, hitem⟩ := hitem
  obtain ⟨items, hrest⟩ := hrest
  refine ⟨item :: items, fun offset => ?_⟩
  have hread := parseItems_block hp.ne_nil hp.not_blank_of_head? hp.chars hbody offset
    (hitem offset) hrest
  simpa using hread

/-- What is in the grammar is read, at every offset as the same items. -/
theorem IsSheet.exists_parseItems (h : IsSheet .asWritten s) :
    ∃ items, ∀ offset, parseItems offset s = .ok items := by
  induction h with
  | nil => exact ⟨[], fun offset => by rw [parseItems]⟩
  | blank hc _ ih =>
    obtain ⟨items, hitems⟩ := ih
    exact ⟨items, fun offset => by rw [parseItems, if_pos hc, hitems]⟩
  | @statement t s ht hs ih =>
    obtain ⟨items, hitems⟩ := ih
    refine ⟨.statement ('@' :: t ++ [';']) :: items, fun offset => ?_⟩
    rw [List.append_cons]
    exact parseItems_statement ht hs.opensFirst hitems offset
  | @group p body s hp hat hname hbody _ ihbody ihs =>
    obtain ⟨items, hitems⟩ := ihbody
    refine exists_parseItems_block hp hbody.balanced ⟨.group (trim p) items, fun offset => ?_⟩ ihs
    have hgroup : atRuleName (trim p) ∈ groupNames := List.contains_iff_mem.1 hname
    have hinner : parseItems (offset + p.length + 1) body = .ok items := hitems _
    rw [blockItem, if_pos hat, if_pos hgroup, hinner]
    rfl
  | @untouched p body s hp hat hname hbody _ ihs =>
    refine exists_parseItems_block hp hbody
      ⟨.untouched (p ++ '\x7b' :: body ++ ['\x7d']), fun offset => ?_⟩ ihs
    have hother : atRuleName (trim p) ∉ groupNames := fun hmem =>
      absurd (hname.symm.trans (List.contains_iff_mem.2 hmem)) Bool.false_ne_true
    rw [blockItem, if_pos hat, if_neg hother]
    rfl
  | @rule p body s hp hat hparts hbody _ ihs =>
    have hbalanced := Balanced.ofPlain hbody
    obtain ⟨item, hitem⟩ := (exists_parseRule_iff hbalanced).2
      ⟨not_mem_of_isPreludeChar hp.chars, hparts, hbody⟩
    refine exists_parseItems_block hp hbalanced ⟨item, fun offset => ?_⟩ ihs
    rw [blockItem, if_neg hat, hitem]

theorem exists_parse_iff : (∃ items, parse s = .ok items) ↔ IsSheet .asWritten s := by
  constructor
  · rintro ⟨items, h⟩
    exact isSheet_of_parseItems h
  · intro h
    obtain ⟨items, hitems⟩ := h.exists_parseItems
    exact ⟨items, hitems 0⟩

theorem exists_scope_iff (scopeText : Text) :
    (∃ out, scope s scopeText = .ok out) ↔ IsSheet .asWritten s := by
  rw [← exists_parse_iff, scope]
  constructor
  · rintro ⟨out, h⟩
    obtain ⟨items, hitems, -⟩ := exists_of_bind_eq_ok h
    exact ⟨items, hitems⟩
  · rintro ⟨items, hitems⟩
    rw [hitems]
    exact ⟨_, rfl⟩

/-! ## One way to read a sheet -/

/-- What the grammar asks of a block. -/
def Reading.Admits (r : Reading) (p body : Text) : Prop :=
  (p.head? = some '@' → r.namesGroup p = true → IsSheet r (r.content body)) ∧
    (p.head? ≠ some '@' → (∀ part ∈ splitOn ',' p, ∃ c ∈ part, isBlank c = false) ∧
      ∀ c ∈ body, isOutsideBraces c = true)

theorem IsSheet.ofBlock {p body : Text} (hp : IsPrelude p) (hbody : Balanced body)
    (h : r.Admits p body) (hs : IsSheet r s) :
    IsSheet r (p ++ '\x7b' :: (body ++ '\x7d' :: s)) := by
  by_cases hat : p.head? = some '@'
  · cases hname : r.namesGroup p with
    | true => exact .group hp hat hname (h.1 hat hname) hs
    | false => exact .untouched hp hat hname hbody hs
  · exact .rule hp hat (h.2 hat).1 (h.2 hat).2 hs

/-- A sheet that does not begin with white space begins with a statement or with a block. -/
theorem IsSheet.cases_of_not_blank {c : Char} (hc : isBlank c = false) (h : IsSheet r (c :: s)) :
    (∃ t rest, c :: s = '@' :: t ++ ';' :: rest ∧ (∀ d ∈ t, isPreludeChar d = true) ∧
      IsSheet r rest) ∨
    ∃ p body rest, c :: s = p ++ '\x7b' :: (body ++ '\x7d' :: rest) ∧ IsPrelude p ∧
      Balanced body ∧ r.Admits p body ∧ IsSheet r rest := by
  generalize he : c :: s = x at h
  cases h with
  | nil => cases he
  | blank hd =>
    obtain ⟨rfl, -⟩ := List.cons.inj he
    rw [hc] at hd
    cases hd
  | @statement t rest ht hrest => exact .inl ⟨t, rest, rfl, ht, hrest⟩
  | @group p body rest hp hat hname hbody hrest =>
    exact .inr ⟨p, body, rest, rfl, hp, r.balanced_of_content body hbody.balanced,
      ⟨fun _ _ => hbody, fun hne => absurd hat hne⟩, hrest⟩
  | @untouched p body rest hp hat hname hbody hrest =>
    exact .inr ⟨p, body, rest, rfl, hp, hbody,
      ⟨fun _ hgroup => absurd (hname.symm.trans hgroup) Bool.false_ne_true,
        fun hne => absurd hat hne⟩, hrest⟩
  | @rule p body rest hp hat hparts hbody hrest =>
    exact .inr ⟨p, body, rest, rfl, hp, .ofPlain hbody,
      ⟨fun hhead => absurd hhead hat, fun _ => ⟨hparts, hbody⟩⟩, hrest⟩

theorem isSheet_blank_iff {c : Char} (hc : isBlank c = true) :
    IsSheet r (c :: s) ↔ IsSheet r s := by
  refine ⟨fun h => ?_, .blank hc⟩
  generalize he : c :: s = x at h
  have hblock : ∀ {p body rest : Text}, IsPrelude p →
      c :: s ≠ p ++ '\x7b' :: (body ++ '\x7d' :: rest) := by
    intro p body rest hp he
    obtain ⟨d, w, rfl⟩ := List.exists_cons_of_ne_nil hp.ne_nil
    obtain ⟨rfl, -⟩ := List.cons.inj he
    rw [hp.not_blank_of_head? c rfl] at hc
    cases hc
  cases h with
  | nil => cases he
  | blank hd hs =>
    obtain ⟨-, rfl⟩ := List.cons.inj he
    exact hs
  | statement =>
    obtain ⟨rfl, -⟩ := List.cons.inj he
    exact absurd hc (by decide)
  | group hp => exact absurd he (hblock hp)
  | untouched hp => exact absurd he (hblock hp)
  | rule hp => exact absurd he (hblock hp)

theorem isPreludeChar_of_statement {t : Text} (ht : ∀ c ∈ t, isPreludeChar c = true) :
    ∀ c ∈ '@' :: t, isPreludeChar c = true :=
  List.forall_mem_cons.2 ⟨rfl, ht⟩

theorem isSheet_statement_iff {t : Text} (ht : ∀ c ∈ t, isPreludeChar c = true) :
    IsSheet r ('@' :: t ++ ';' :: s) ↔ IsSheet r s := by
  refine ⟨fun h => ?_, .statement ht⟩
  rcases h.cases_of_not_blank rfl with ⟨t', rest, he, ht', hrest⟩ | ⟨p, body, rest, he, hp, -⟩
  · obtain ⟨-, -, rfl⟩ := eq_of_append_eq_append (isPreludeChar_of_statement ht)
      (isPreludeChar_of_statement ht') rfl rfl he
    exact hrest
  · exact absurd (eq_of_append_eq_append (isPreludeChar_of_statement ht) hp.chars rfl rfl he).2.1
      (by decide)

/-- **A block is read in one way only.** -/
theorem isSheet_block_iff {p body : Text} (hp : IsPrelude p) (hbody : Balanced body) :
    IsSheet r (p ++ '\x7b' :: (body ++ '\x7d' :: s)) ↔ r.Admits p body ∧ IsSheet r s := by
  refine ⟨fun h => ?_, fun h => .ofBlock hp hbody h.1 h.2⟩
  obtain ⟨c, w, rfl⟩ := List.exists_cons_of_ne_nil hp.ne_nil
  rcases h.cases_of_not_blank (hp.not_blank_of_head? c rfl) with
    ⟨t, rest, he, ht, -⟩ | ⟨p', body', rest, he, hp', hbody', hadmits, hrest⟩
  · exact absurd (eq_of_append_eq_append hp.chars (isPreludeChar_of_statement ht) rfl rfl he).2.1
      (by decide)
  · obtain ⟨rfl, -, hbehind⟩ := eq_of_append_eq_append hp.chars hp'.chars rfl rfl he
    have hclose := closeBlock?_body hbody s
    rw [hbehind, closeBlock?_body hbody' rest, Option.some.injEq, Prod.mk.injEq] at hclose
    obtain ⟨rfl, rfl⟩ := hclose
    exact ⟨hadmits, hrest⟩

/-! ## Cuts of a sheet -/

theorem isSheet_blanks_iff {w : Text} (hw : ∀ c ∈ w, isBlank c = true) :
    IsSheet r (w ++ s) ↔ IsSheet r s := by
  induction w with
  | nil => exact Iff.rfl
  | cons c w ih =>
    rw [List.forall_mem_cons] at hw
    rw [List.cons_append, isSheet_blank_iff hw.1, ih hw.2]

theorem isSheet_trimStart_iff : IsSheet r (trimStart s) ↔ IsSheet r s := by
  have hsplit : s.takeWhile isBlank ++ trimStart s = s := List.takeWhile_append_dropWhile
  conv => rhs; rw [← hsplit]
  exact (isSheet_blanks_iff fun c hc => List.all_eq_true.1 List.all_takeWhile c hc).symm

theorem IsSheet.append {t : Text} (hs : IsSheet r s) (ht : IsSheet r t) : IsSheet r (s ++ t) := by
  induction hs with
  | nil => exact ht
  | blank hc _ ih => exact .blank hc ih
  | statement hchars _ ih =>
    rw [List.append_assoc, List.cons_append]
    exact .statement hchars ih
  | group hp hat hname hbody _ _ ih =>
    rw [List.append_assoc, List.cons_append, List.append_assoc, List.cons_append]
    exact .group hp hat hname hbody ih
  | untouched hp hat hname hbody _ ih =>
    rw [List.append_assoc, List.cons_append, List.append_assoc, List.cons_append]
    exact .untouched hp hat hname hbody ih
  | rule hp hat hparts hbody _ ih =>
    rw [List.append_assoc, List.cons_append, List.append_assoc, List.cons_append]
    exact .rule hp hat hparts hbody ih

theorem isPreludeChar_of_isBlank {c : Char} (h : isBlank c = true) : isPreludeChar c = true := by
  rw [isPreludeChar, isOutsideBraces_of_isBlank h, Bool.true_and, bne_iff_ne]
  rintro rfl
  exact absurd h (by decide)

/-- **What the first delimiter of a sheet is:** the semicolon of a statement, or the brace that
opens a block. -/
theorem IsSheet.cases_of_cut {v w : Text} {d : Char} (hv : ∀ c ∈ v, isPreludeChar c = true)
    (hhead : ∀ c ∈ v.head?, isBlank c = false) (hd : isPreludeChar d = false)
    (h : IsSheet r (v ++ d :: w)) :
    (d = ';' ∧ v.head? = some '@' ∧ IsSheet r w) ∨
      d = '\x7b' ∧ IsPrelude v ∧ ∃ body rest, w = body ++ '\x7d' :: rest ∧ Balanced body ∧
        r.Admits v body ∧ IsSheet r rest := by
  obtain ⟨c, x, hx, hc⟩ : ∃ c x, v ++ d :: w = c :: x ∧ isBlank c = false := by
    cases v with
    | nil =>
      refine ⟨d, w, rfl, ?_⟩
      rw [← Bool.not_eq_true]
      intro hblank
      exact Bool.false_ne_true (hd.symm.trans (isPreludeChar_of_isBlank hblank))
    | cons c v => exact ⟨c, _, rfl, hhead c rfl⟩
  rw [hx] at h
  rcases h.cases_of_not_blank hc with ⟨t, rest, he, ht, hrest⟩ |
    ⟨p, body, rest, he, hp, hbody, hadmits, hrest⟩
  · obtain ⟨rfl, rfl, rfl⟩ := eq_of_append_eq_append hv (isPreludeChar_of_statement ht) hd rfl
      (hx.trans he)
    exact .inl ⟨rfl, rfl, hrest⟩
  · obtain ⟨rfl, rfl, rfl⟩ := eq_of_append_eq_append hv hp.chars hd rfl (hx.trans he)
    exact .inr ⟨rfl, hp, body, rest, rfl, hbody, hadmits, hrest⟩

/-- The first brace of a sheet has a prelude in front of it and is closed. -/
theorem IsSheet.closes {v w : Text} (hv : ∀ c ∈ v, isPreludeChar c = true)
    (hhead : ∀ c ∈ v.head?, isBlank c = false) (h : IsSheet r (v ++ '\x7b' :: w)) :
    IsPrelude v ∧ closeBlock? 0 w ≠ none := by
  rcases h.cases_of_cut hv hhead rfl with ⟨he, -⟩ | ⟨-, hp, body, rest, rfl, hbody, -⟩
  · exact absurd he (by decide)
  · refine ⟨hp, ?_⟩
    rw [closeBlock?_body hbody]
    exact Option.some_ne_none _

/-- A sheet without delimiters is blank. -/
theorem not_isSheet_of_isPreludeChar {c : Char} (hc : isBlank c = false)
    (hs : ∀ d ∈ c :: s, isPreludeChar d = true) : ¬ IsSheet r (c :: s) := by
  intro h
  rcases h.cases_of_not_blank hc with ⟨t, rest, he, -⟩ | ⟨p, body, rest, he, -⟩
  · exact absurd (hs ';' (by rw [he]; simp)) (by decide)
  · exact absurd (hs '\x7b' (by rw [he]; simp)) (by decide)

/-- White space behind a sheet makes no difference. -/
theorem isSheet_append_blanks_iff {w : Text} (hw : ∀ c ∈ w, isBlank c = true) :
    IsSheet r (s ++ w) ↔ IsSheet r s := by
  have hblanks : IsSheet r w := by
    rw [← List.append_nil w, isSheet_blanks_iff hw]
    exact .nil
  refine ⟨fun h => ?_, fun h => h.append hblanks⟩
  have hchars : ∀ c ∈ w, isPreludeChar c = true := fun c hc => isPreludeChar_of_isBlank (hw c hc)
  induction hn : s.length using Nat.strongRecOn generalizing s with
  | ind n ih =>
    cases s with
    | nil => exact .nil
    | cons c s =>
      cases hc : isBlank c with
      | true =>
        rw [List.cons_append, isSheet_blank_iff hc] at h
        exact .blank hc (ih s.length (by simp [← hn]) h rfl)
      | false =>
        rcases forall_or_exists_eq_append isPreludeChar (c :: s) with hall | ⟨v, d, u, hs, hv, hd⟩
        · rw [List.cons_append] at h
          refine absurd h (not_isSheet_of_isPreludeChar hc ?_)
          intro d hd
          rw [← List.cons_append] at hd
          exact (List.mem_append.1 hd).elim (hall d) (hchars d)
        · have hhead : ∀ e ∈ v.head?, isBlank e = false := by
            intro e he
            cases v with
            | nil => cases he
            | cons b v =>
              obtain rfl : b = e := Option.some.inj he
              rw [← (List.cons.inj hs).1]
              exact hc
          rw [hs, List.append_assoc, List.cons_append] at h
          have hlength : n = v.length + (u.length + 1) := by
            rw [← hn, hs, List.length_append, List.length_cons]
          rw [hs]
          rcases h.cases_of_cut hv hhead hd with ⟨rfl, hat, hrest⟩ |
            ⟨rfl, hp, body, rest, hcut, hbody, hadmits, hrest⟩
          · obtain ⟨t, rfl⟩ := List.head?_eq_some_iff.1 hat
            exact .statement (List.forall_mem_cons.1 hv).2 (ih u.length (by omega) hrest rfl)
          · -- The closing brace of the block does not stand in the white space.
            have hclose : '\x7d' ∉ w := fun hmem => absurd (hchars _ hmem) (by decide)
            rcases exists_of_append_eq_append_cons hcut with ⟨z, -, hz⟩ | ⟨z, rfl, rfl⟩
            · exact absurd (by rw [hz]; simp) hclose
            · rw [List.length_append, List.length_cons] at hlength
              exact .ofBlock hp hbody hadmits (ih z.length (by omega) hrest rfl)

theorem isSheet_trim_iff : IsSheet r (trim s) ↔ IsSheet r s := by
  obtain ⟨v, w, hs, hv, hw⟩ := exists_eq_append_trim s
  conv => rhs; rw [hs]
  rw [isSheet_append_blanks_iff hw, isSheet_blanks_iff hv]

/-! ## Failures -/

/-- **Scoping fails exactly outside the grammar**, whatever the scope, and then with a style error.
It succeeds exactly on the style sheets. -/
theorem scope_fails_iff (s scopeText : Text) :
    ((∃ e : StyleError, scope s scopeText = .error e) ↔ ¬ IsSheet .asWritten s) ∧
      ((∃ out, scope s scopeText = .ok out) ↔ IsSheet .asWritten s) := by
  refine ⟨?_, exists_scope_iff scopeText⟩
  rw [← exists_scope_iff scopeText]
  constructor
  · rintro ⟨e, he⟩ ⟨out, hout⟩
    rw [he] at hout
    cases hout
  · intro h
    cases hscope : scope s scopeText with
    | error e => exact ⟨e, rfl⟩
    | ok out => exact absurd ⟨out, hscope⟩ h

/-! ## Names that end otherwise -/

/-- Style sheets in which the name of an at-rule reaches up to the first character of a class, and
the white space at the end of a prelude belongs to the prelude. -/
def Reading.namedUpTo (isEnd : Char → Bool) : Reading where
  namesGroup prelude := groupNames.contains (lower ((prelude.drop 1).takeWhile fun c => !isEnd c))
  content := id
  balanced_of_content _ h := h

theorem not_isSheet_letter (r : Reading) : ¬ IsSheet r ['x'] := by
  intro h
  generalize he : ['x'] = x at h
  have hopen : '\x7b' ∉ x := by
    rw [← he]
    decide
  cases h with
  | nil => cases he
  | blank hc =>
    obtain ⟨rfl, -⟩ := List.cons.inj he
    exact absurd hc (by decide)
  | statement => exact absurd (List.cons.inj he).1 (by decide)
  | group => exact hopen (by simp)
  | untouched => exact hopen (by simp)
  | rule => exact hopen (by simp)

/-- **The name of an at-rule does not reach up to the first space or parenthesis of its prelude.**
If no other character than ` ` is a space, then `@media` in front of a line break and a brace would
be no group, and it is one; if all white space is, then `@media` in front of a line break and a
parenthesis would be a group, and it is none. -/
theorem name_up_to_space_misread :
    (¬ ∀ s scopeText : Text, (∃ e : StyleError, scope s scopeText = .error e) ↔
      ¬ IsSheet (.namedUpTo fun c => c == ' ' || c == '(') s) ∧
    ¬ ∀ s scopeText : Text, (∃ e : StyleError, scope s scopeText = .error e) ↔
      ¬ IsSheet (.namedUpTo fun c => isBlank c || c == '(') s := by
  have hbody : Balanced ['x'] := .plain rfl .nil
  constructor
  · intro h
    have hp : IsPrelude "@media\n".toList := ⟨⟨'@', rfl, rfl⟩, forall_mem_of_all rfl⟩
    have hliteral : IsSheet (.namedUpTo fun c => c == ' ' || c == '(') "@media\n\x7bx\x7d".toList :=
      .untouched hp rfl (by decide +kernel) hbody .nil
    have hread : ¬ IsSheet .asWritten "@media\n\x7bx\x7d".toList := fun hsheet =>
      not_isSheet_letter _ (((isSheet_block_iff hp hbody).1 hsheet).1.1 rfl (by decide +kernel))
    rw [← exists_scope_iff []] at hread
    refine (h "@media\n\x7bx\x7d".toList []).1 ?_ hliteral
    cases hscope : scope "@media\n\x7bx\x7d".toList [] with
    | error e => exact ⟨e, rfl⟩
    | ok out => exact absurd ⟨out, hscope⟩ hread
  · intro h
    have hp : IsPrelude "@media\n(y)".toList := ⟨⟨'@', rfl, rfl⟩, forall_mem_of_all rfl⟩
    have hliteral : ¬ IsSheet (.namedUpTo fun c => isBlank c || c == '(')
        "@media\n(y)\x7bx\x7d".toList := fun hsheet =>
      not_isSheet_letter _ (((isSheet_block_iff hp hbody).1 hsheet).1.1 rfl (by decide +kernel))
    have hread : IsSheet .asWritten "@media\n(y)\x7bx\x7d".toList :=
      .untouched hp rfl (by decide +kernel) hbody .nil
    obtain ⟨e, he⟩ := (h _ []).2 hliteral
    obtain ⟨out, hout⟩ := (exists_scope_iff []).2 hread
    rw [he] at hout
    cases hout

end SvgAssets.Stylesheet
