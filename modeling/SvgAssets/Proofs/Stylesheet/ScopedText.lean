/-
# SvgAssets.Proofs.Stylesheet.ScopedText -- where a scope goes in the text of a style sheet

Scoping reads a style sheet into its tree and prints the tree with every selector under the scope.
Seen on the text, and for a sheet without space beside punctuation, this only puts the scope in, in
front of selectors or in the place of their names for the root, and copies all the rest
(`scoped_of_parseItems`). A scope is put in behind a brace, a semicolon or a comma, and where the
first brace behind it opens a block.
-/
import SvgAssets.Proofs.Stylesheet.Grammar
import SvgAssets.Proofs.Stylesheet.Packing
import SvgAssets.Stylesheet.Scope

namespace SvgAssets.Stylesheet

open Text

/-! ## Places of scopes -/

/-- Characters behind which a selector may begin. -/
def isCutChar (c : Char) : Bool := c == '\x7b' || c == '\x7d' || c == ';' || c == ','

/-- A selector may begin behind the text. -/
def IsCut (w : Text) : Prop := ∀ c ∈ w.getLast?, isCutChar c = true

theorem isCut_nil : IsCut [] := by
  intro c hc
  cases hc

theorem isCut_append_singleton {c : Char} (h : isCutChar c = true) (w : Text) :
    IsCut (w ++ [c]) := by
  intro d hd
  obtain rfl : c = d := by simpa using hd
  exact h

theorem IsCut.append {v w : Text} (hv : IsCut v) (hw : IsCut w) : IsCut (v ++ w) := by
  intro c hc
  rw [List.getLast?_append] at hc
  cases hlast : w.getLast? with
  | none =>
    rw [hlast, Option.none_or] at hc
    exact hv c hc
  | some d =>
    rw [hlast, Option.some_or] at hc
    exact hw c (hlast.trans hc)

theorem IsCut.of_suffix {v w : Text} (h : IsCut w) (hv : v <:+ w) : IsCut v := by
  obtain ⟨u, rfl⟩ := hv
  intro c hc
  refine h c ?_
  rw [List.getLast?_append, hc, Option.some_or]
  rfl

/-- The braces of a text. -/
abbrev braces (s : Text) : Text := s.filter fun c => !isOutsideBraces c

/-- The first brace of a text opens a block. -/
def OpensBlock (s : Text) : Prop := (braces s).head? = some '\x7b'

theorem OpensBlock.append {s : Text} (h : OpensBlock s) (t : Text) : OpensBlock (s ++ t) := by
  rw [OpensBlock, braces, List.filter_append, List.head?_append, h, Option.some_or]

theorem opensBlock_append {w s : Text} (h : ∀ c ∈ w, isOutsideBraces c = true) :
    OpensBlock (w ++ s) ↔ OpensBlock s := by
  have hnone : w.filter (fun c => !isOutsideBraces c) = [] :=
    List.filter_eq_nil_iff.2 fun c hc => by simp [h c hc]
  rw [OpensBlock, braces, List.filter_append, hnone, List.nil_append]
  rfl

theorem opensBlock_append_cons {s : Text} (h : ∀ c ∈ s, isOutsideBraces c = true) (t : Text) :
    OpensBlock (s ++ '\x7b' :: t) :=
  (opensBlock_append h).2 rfl

/-- The second text is the first one with scopes put in: each behind a text at whose end a selector
may begin, in front of a selector and a space or in the place of a name for the root. -/
inductive Scoped (scope : Text) : Text → Text → Prop
  | refl (s : Text) : Scoped scope s s
  | put {w name gap s t : Text} (hw : IsCut w) (hname : '_' ∉ name)
      (hopens : OpensBlock (name ++ s)) (hgap : ∀ c ∈ gap, c = ' ')
      (hnext : ∃ c u, gap ++ t = c :: u ∧ isWordChar c = false) (h : Scoped scope s t) :
      Scoped scope (w ++ (name ++ s)) (w ++ (scope ++ (gap ++ t)))

namespace Scoped

variable {scope s t s' t' : Text}

theorem append_left {w : Text} (hw : IsCut w) (h : Scoped scope s t) :
    Scoped scope (w ++ s) (w ++ t) := by
  cases h with
  | refl => exact .refl _
  | put hw' hname hopens hgap hnext h =>
    rw [← List.append_assoc, ← List.append_assoc w]
    exact .put (hw.append hw') hname hopens hgap hnext h

/-- What may stand behind every end of the first text may stand behind both. -/
theorem append_of_suffix (h : Scoped scope s t)
    (h' : ∀ w, w <:+ s → Scoped scope (w ++ s') (w ++ t')) : Scoped scope (s ++ s') (t ++ t') := by
  induction h with
  | refl s => exact h' s (List.suffix_refl s)
  | @put w name gap s t hw hname hopens hgap hnext h ih =>
    have hrest := ih fun v hv => h' v (hv.trans ((List.suffix_append name s).trans
      (List.suffix_append w _)))
    simp only [List.append_assoc]
    refine .put hw hname ?_ hgap ?_ hrest
    · rw [← List.append_assoc]
      exact hopens.append s'
    · obtain ⟨c, u, hu, hc⟩ := hnext
      exact ⟨c, u ++ t', by rw [← List.append_assoc, hu, List.cons_append], hc⟩

theorem append_right (h : Scoped scope s t) (u : Text) : Scoped scope (s ++ u) (t ++ u) :=
  h.append_of_suffix fun _ _ => .refl _

theorem append (h : Scoped scope s t) (hs : IsCut s) (h' : Scoped scope s' t') :
    Scoped scope (s ++ s') (t ++ t') :=
  h.append_of_suffix fun _ hw => h'.append_left (hs.of_suffix hw)

end Scoped

/-! ## Selectors -/

/-- No underscore stands in a name for the root. -/
theorem NamesRoot.exists_name {selector rest : Text} (h : NamesRoot selector rest) :
    ∃ name, selector = name ++ rest ∧ '_' ∉ name := by
  obtain ⟨name, hname, form, hform, hselector, -⟩ := h
  have hletters : ∀ letter ∈ name, sameLetter letter '_' = false := by
    rcases List.mem_pair.1 hname with rfl | rfl
    · exact forall_mem_of_all rfl
    · exact forall_mem_of_all rfl
  refine ⟨form, hselector, fun hmem => ?_⟩
  clear hname hselector
  induction hform with
  | nil => cases hmem
  | @cons letter c name form hc hform ih =>
    rw [List.forall_mem_cons] at hletters
    rcases List.mem_cons.1 hmem with rfl | hmem
    · rw [hletters.1] at hc
      cases hc
    · exact ih hletters.2 hmem

section

variable {scope : Text}

/-- One selector under a scope: the scope is put in front of it, or in the place of a name for the
root. -/
theorem scoped_selector {selector s t : Text} {c : Char} (hc : isWordChar c = false)
    (hopens : OpensBlock (selector ++ s))
    (h : ∀ w, w <:+ selector → Scoped scope (w ++ s) (w ++ c :: t)) :
    Scoped scope (selector ++ s) (scopedSelector scope selector ++ c :: t) := by
  rw [scopedSelector]
  split
  · rename_i rest hroot
    have hnames := behindRoot?_eq_some_iff.1 hroot
    obtain ⟨name, rfl, hname⟩ := hnames.exists_name
    obtain ⟨_, _, _, _, _, hnext⟩ := hnames
    rw [List.append_assoc] at hopens
    have hrest := h rest (List.suffix_append name rest)
    rw [List.append_assoc, List.append_assoc]
    refine @Scoped.put scope [] name [] _ _ isCut_nil hname hopens (by simp) ?_ hrest
    cases rest with
    | nil => exact ⟨c, t, rfl, hc⟩
    | cons d rest => exact ⟨d, rest ++ c :: t, rfl, (hnext d rfl).1⟩
  · have hself := h selector (List.suffix_refl selector)
    rw [List.append_assoc]
    exact @Scoped.put scope [] [] [' '] _ _ isCut_nil List.not_mem_nil hopens
      (by simp) ⟨' ', selector ++ c :: t, rfl, by decide⟩ hself

/-- The selectors of a rule, each under the scope. -/
theorem scoped_selectors (scope : Text) {parts : List Text} (hne : parts ≠ [])
    (hparts : ∀ part ∈ parts, ∀ c ∈ part, isOutsideBraces c = true) {s t : Text}
    (h : ∀ w, Scoped scope (w ++ '\x7b' :: s) (w ++ '\x7b' :: t)) :
    Scoped scope ([','].intercalate parts ++ '\x7b' :: s)
      ([','].intercalate (parts.map (scopedSelector scope)) ++ '\x7b' :: t) := by
  induction parts with
  | nil => exact absurd rfl hne
  | cons part parts ih =>
    rw [List.forall_mem_cons] at hparts
    cases parts with
    | nil =>
      rw [List.map_singleton, List.intercalate_singleton, List.intercalate_singleton]
      exact scoped_selector (by decide) (opensBlock_append_cons hparts.1 s) fun w _ => h w
    | cons next parts =>
      have hrest := ih (List.cons_ne_nil _ _) hparts.2
      have houtside : ∀ c ∈ part ++ ',' :: [','].intercalate (next :: parts),
          isOutsideBraces c = true := by
        intro c hc
        rcases List.mem_append.1 hc with hc | hc
        · exact hparts.1 c hc
        · rcases List.mem_cons.1 hc with rfl | hc
          · decide
          · rcases mem_intercalate hc with rfl | ⟨other, hother, hc⟩
            · decide
            · exact hparts.2 other hother c hc
      have hopens := opensBlock_append_cons houtside s
      rw [List.map_cons, List.map_cons, List.intercalate_cons_cons, List.intercalate_cons_cons]
      rw [List.map_cons] at hrest
      simp only [List.append_assoc, List.cons_append, List.nil_append] at hopens ⊢
      refine scoped_selector (by decide) hopens fun w _ => ?_
      have hcomma := hrest.append_left (isCut_append_singleton (c := ',') rfl w)
      rwa [List.append_assoc, List.append_assoc] at hcomma

/-! ## Texts without space beside punctuation -/

/-- No space stands beside punctuation in a text, nor at its start. -/
structure IsTight (s : Text) : Prop where
  chain : s.IsChain (NotBeside isMark isBlank)
  head : ∀ c ∈ s.head?, isBlank c = false

theorem IsTight.of_prefix {v s : Text} (h : IsTight s) (hv : v <+: s) : IsTight v := by
  obtain ⟨w, rfl⟩ := hv
  refine ⟨h.chain.left_of_append, fun c hc => h.head c ?_⟩
  rw [List.head?_append, hc, Option.some_or]
  rfl

/-- Behind punctuation a text is tight again. -/
theorem IsTight.behind {v s : Text} {m : Char} (h : IsTight (v ++ m :: s)) (hm : isMark m = true) :
    IsTight s := by
  obtain ⟨hnext, hchain⟩ := List.isChain_cons.1 h.chain.right_of_append
  refine ⟨hchain, fun c hc => ?_⟩
  rw [← Bool.not_eq_true]
  exact fun hblank => (hnext c hc).2 ⟨hm, hblank⟩

/-- In front of punctuation no space ends a text. -/
theorem IsTight.trim_eq {v s : Text} {m : Char} (h : IsTight (v ++ m :: s)) (hm : isMark m = true) :
    trim v = v := by
  refine trim_eq_self (h.of_prefix (List.prefix_append v _)).head fun c hc => ?_
  obtain ⟨w, rfl⟩ := List.getLast?_eq_some_iff.1 hc
  have hchain := h.chain
  rw [List.append_assoc] at hchain
  have hnext := (List.isChain_cons.1 hchain.right_of_append).1 m rfl
  rw [← Bool.not_eq_true]
  exact fun hblank => hnext.1 ⟨hblank, hm⟩

/-- The selectors in front of a block are its parts between commas, as they stand. -/
theorem IsTight.selectors_eq {v s : Text} {m : Char} (h : IsTight (v ++ m :: s))
    (hm : isMark m = true) : selectors v = splitOn ',' v := by
  induction hn : v.length using Nat.strongRecOn generalizing v with
  | ind n ih =>
    rcases breakAt?_cases ',' v with ⟨-, hnone⟩ | ⟨x, y, -, rfl, hx⟩
    · rw [selectors, splitOn_eq_singleton hnone, List.map_singleton, h.trim_eq hm]
    · rw [List.append_assoc, List.cons_append] at h
      have hlt : y.length < n := by
        rw [← hn, List.length_append, List.length_cons]
        omega
      have hrest := ih y.length hlt (h.behind rfl) rfl
      rw [selectors] at hrest
      rw [selectors, splitOn_append_cons, splitOn_eq_singleton hx, List.map_append, hrest,
        List.map_singleton, h.trim_eq rfl]

end

/-! ## Whole sheets -/

theorem eq_rule_of_parseRule {prelude body : Text} {item : Item}
    (h : parseRule prelude body = .ok item) : item = .rule (selectors prelude) body := by
  unfold parseRule at h
  split at h
  · cases h
  · split at h
    · cases h
    · split at h
      · cases h
      · exact (Except.ok.inj h).symm

/-- An item that is a block, under a scope: what holds of the items in its body holds of the whole
block. -/
theorem scoped_blockItem {scope head body rest : Text} {offset : Nat} {item : Item}
    (htight : IsTight (head ++ '\x7b' :: (body ++ '\x7d' :: rest)))
    (houtside : ∀ c ∈ head, isOutsideBraces c = true)
    (hitem : blockItem offset head body = .ok item)
    (hbody : ∀ offset items, parseItems offset body = .ok items →
      Scoped scope body (printItems (scopedItems scope items)))
    {t : Text} (hrest : Scoped scope rest t) :
    Scoped scope (head ++ '\x7b' :: (body ++ '\x7d' :: rest)) ((item.scoped scope).print ++ t) := by
  rw [blockItem, htight.trim_eq rfl] at hitem
  split at hitem
  · split at hitem
    · obtain ⟨items, hitems, rfl⟩ : ∃ items,
          parseItems (offset + head.length + 1) body = .ok items ∧
            Item.group head items = item := by
        cases hitems : parseItems (offset + head.length + 1) body with
        | error e =>
          rw [hitems] at hitem
          cases hitem
        | ok items =>
          rw [hitems] at hitem
          exact ⟨items, rfl, Except.ok.inj hitem⟩
      have hinner := (hbody _ items hitems).append_right ['\x7d']
      have hwhole := (hinner.append (isCut_append_singleton rfl body) hrest).append_left
        (isCut_append_singleton (c := '\x7b') rfl head)
      rw [Item.scoped, Item.print]
      simpa using hwhole
    · obtain rfl := Except.ok.inj hitem
      have hwhole := hrest.append_left
        (isCut_append_singleton (c := '\x7d') rfl (head ++ '\x7b' :: body))
      rw [Item.scoped, Item.print]
      simpa using hwhole
  · obtain rfl := eq_rule_of_parseRule hitem
    rw [Item.scoped, Item.print, htight.selectors_eq rfl]
    have hselectors := scoped_selectors scope (splitOn_ne_nil ',' head)
      (fun part hpart c hc => houtside c (mem_of_mem_splitOn hpart hc))
      (s := body ++ '\x7d' :: rest) (t := body ++ '\x7d' :: t) fun w => by
        have hwhole := hrest.append_left
          (isCut_append_singleton (c := '\x7d') rfl (w ++ '\x7b' :: body))
        simpa using hwhole
    rw [intercalate_splitOn] at hselectors
    simpa using hselectors

/-- **Scoping puts scopes in and copies all the rest** of a sheet without space beside
punctuation. -/
theorem scoped_of_parseItems (scope : Text) {s : Text} {offset : Nat} {items : List Item}
    (hs : IsTight s) (h : parseItems offset s = .ok items) :
    Scoped scope s (printItems (scopedItems scope items)) := by
  induction hn : s.length using Nat.strongRecOn generalizing s offset items with
  | ind n ih =>
    cases s with
    | nil =>
      rw [parseItems] at h
      cases h
      exact .refl []
    | cons c s =>
      rcases exists_of_parseItems (hs.head c rfl) h with
        ⟨t, rest, offset', others, ht, -, hothers, rfl⟩ |
        ⟨head, body, rest, offset', item, others, hblock, houtside, -, -, hitem, hothers, rfl⟩
      · rw [ht] at hs hn ⊢
        have hlt : rest.length < n := by
          rw [← hn, List.length_append, List.length_cons, List.length_cons]
          omega
        have hrest := ih rest.length hlt (hs.behind rfl) hothers rfl
        have hwhole := hrest.append_left (isCut_append_singleton (c := ';') rfl ('@' :: t))
        rw [scopedItems, Item.scoped, printItems, Item.print]
        simpa using hwhole
      · rw [hblock] at hs hn ⊢
        rw [List.length_append, List.length_cons, List.length_append, List.length_cons] at hn
        have hinner := hs.behind rfl
        have hrest := ih rest.length (by omega) (hinner.behind rfl) hothers rfl
        rw [scopedItems, printItems]
        refine scoped_blockItem hs houtside hitem ?_ hrest
        intro offset items hitems
        exact ih body.length (by omega) (hinner.of_prefix (List.prefix_append body _)) hitems rfl

end SvgAssets.Stylesheet
