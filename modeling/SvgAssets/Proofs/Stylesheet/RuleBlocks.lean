/-
# SvgAssets.Proofs.Stylesheet.RuleBlocks -- style sheets as nested blocks

The renaming passes know nothing of blocks: they look at flat text between braces. A sheet whose
braces delimit blocks, or belong to whole placeholders, is cut by its delimiters into stretches, and
whatever the nesting, a stretch in front of an opening brace is a prelude and every other one is
not. So a pass that goes on at each delimiter acts on the stretches one by one (`pass_text`), and
this is how placeholders are hidden (`hide_text`), how the selectors in preludes are renamed
(`renamePreludes_text`), and how placeholders are restored (`restore_text`).
-/
import SvgAssets.Proofs.Stylesheet.SelectorRenaming

namespace SvgAssets.Stylesheet

open Text Markup

/-! ## Blocks -/

/-- A block: its prelude, the blocks in it, and the text behind them up to the closing brace. A rule
is a block with no blocks in it, and that text are its declarations. -/
inductive RuleBlock where
  | mk (prelude : Text) (blocks : List RuleBlock) (rest : Text)

mutual

/-- The text of a block. -/
def RuleBlock.text : RuleBlock → Text
  | .mk prelude blocks rest => prelude ++ '\x7b' :: (textOfBlocks blocks ++ (rest ++ ['\x7d']))

/-- The text of a list of blocks. -/
def textOfBlocks : List RuleBlock → Text
  | [] => []
  | block :: blocks => block.text ++ textOfBlocks blocks

end

mutual

/-- A block with its preludes changed by one function, and all other text in it by another. -/
def RuleBlock.map (f g : Text → Text) : RuleBlock → RuleBlock
  | .mk prelude blocks rest => .mk (f prelude) (mapBlocks f g blocks) (g rest)

/-- A list of blocks with their texts changed. -/
def mapBlocks (f g : Text → Text) : List RuleBlock → List RuleBlock
  | [] => []
  | block :: blocks => block.map f g :: mapBlocks f g blocks

end

/-- A style sheet: its blocks and the text behind the last one. -/
structure RuleSheet where
  blocks : List RuleBlock
  rest : Text

namespace RuleSheet

/-- The sheet as it is written. -/
def text (s : RuleSheet) : Text := textOfBlocks s.blocks ++ s.rest

/-- The sheet with its preludes changed by one function, and all other text by another. -/
def map (f g : Text → Text) (s : RuleSheet) : RuleSheet := ⟨mapBlocks f g s.blocks, g s.rest⟩

end RuleSheet

/-! ## Stretches -/

/-- A text without delimiters, and whether the one behind it is an opening brace. -/
structure RuleStretch where
  text : Text
  opens : Bool
  deriving DecidableEq

namespace RuleStretch

/-- The delimiter behind the text. -/
def brace (x : RuleStretch) : Char := if x.opens then '\x7b' else '\x7d'

/-- The stretch with its text changed by the function for its kind. -/
def map (f g : Text → Text) (x : RuleStretch) : RuleStretch :=
  { x with text := if x.opens then f x.text else g x.text }

variable {f g f' g' : Text → Text} {x : RuleStretch}

theorem map_map : (x.map f g).map f' g' = x.map (f' ∘ f) (g' ∘ g) := by
  obtain ⟨text, opens⟩ := x
  cases opens with
  | true => rfl
  | false => rfl

/-- Only the function for its kind matters. -/
theorem map_congr (hprelude : x.opens = true → f x.text = f' x.text)
    (hvalue : x.opens = false → g x.text = g' x.text) : x.map f g = x.map f' g' := by
  obtain ⟨text, opens⟩ := x
  cases opens with
  | true => exact congrArg (RuleStretch.mk · true) (hprelude rfl)
  | false => exact congrArg (RuleStretch.mk · false) (hvalue rfl)

end RuleStretch

mutual

/-- The stretches of a block: its prelude, those of the blocks in it, and the text behind them. -/
def RuleBlock.stretches : RuleBlock → List RuleStretch
  | .mk prelude blocks rest => ⟨prelude, true⟩ :: (stretchesOfBlocks blocks ++ [⟨rest, false⟩])

/-- The stretches of a list of blocks. -/
def stretchesOfBlocks : List RuleBlock → List RuleStretch
  | [] => []
  | block :: blocks => block.stretches ++ stretchesOfBlocks blocks

end

/-- Stretches with their delimiters, and a last text behind them. -/
def joinStretches : List RuleStretch → Text → Text
  | [], last => last
  | x :: xs, last => x.text ++ x.brace :: joinStretches xs last

theorem joinStretches_append (xs ys : List RuleStretch) (last : Text) :
    joinStretches (xs ++ ys) last = joinStretches xs (joinStretches ys last) := by
  induction xs with
  | nil => rfl
  | cons x xs ih => rw [List.cons_append, joinStretches, joinStretches, ih]

mutual

theorem RuleBlock.text_append : (block : RuleBlock) → (t : Text) →
    block.text ++ t = joinStretches block.stretches t
  | .mk prelude blocks rest, t => by
    have hblocks := textOfBlocks_append blocks (rest ++ '\x7d' :: t)
    rw [RuleBlock.text, RuleBlock.stretches, joinStretches, joinStretches_append]
    show _ = prelude ++ '\x7b' :: joinStretches (stretchesOfBlocks blocks) (rest ++ '\x7d' :: t)
    rw [← hblocks]
    simp

theorem textOfBlocks_append : (blocks : List RuleBlock) → (t : Text) →
    textOfBlocks blocks ++ t = joinStretches (stretchesOfBlocks blocks) t
  | [], t => rfl
  | block :: blocks, t => by
    rw [textOfBlocks, stretchesOfBlocks, joinStretches_append, List.append_assoc,
      textOfBlocks_append blocks t, RuleBlock.text_append block]

end

mutual

theorem RuleBlock.stretches_map (f g : Text → Text) : (block : RuleBlock) →
    (block.map f g).stretches = block.stretches.map (RuleStretch.map f g)
  | .mk prelude blocks rest => by
    rw [RuleBlock.map, RuleBlock.stretches, RuleBlock.stretches, stretchesOfBlocks_map f g blocks,
      List.map_cons, List.map_append]
    rfl

theorem stretchesOfBlocks_map (f g : Text → Text) : (blocks : List RuleBlock) →
    stretchesOfBlocks (mapBlocks f g blocks) = (stretchesOfBlocks blocks).map (RuleStretch.map f g)
  | [] => rfl
  | block :: blocks => by
    rw [mapBlocks, stretchesOfBlocks, stretchesOfBlocks, RuleBlock.stretches_map f g block,
      stretchesOfBlocks_map f g blocks, List.map_append]

end

theorem last_infix_joinStretches (xs : List RuleStretch) (last : Text) :
    last <:+: joinStretches xs last := by
  induction xs with
  | nil => exact List.infix_rfl
  | cons x xs ih =>
    rw [joinStretches]
    exact ih.trans ((List.suffix_cons _ _).trans (List.suffix_append x.text _)).isInfix

theorem infix_joinStretches {xs : List RuleStretch} {x : RuleStretch} (hx : x ∈ xs) (last : Text) :
    x.text <:+: joinStretches xs last := by
  obtain ⟨front, back, rfl⟩ := List.append_of_mem hx
  rw [joinStretches_append]
  have hfirst : x.text <:+: joinStretches (x :: back) last := (List.prefix_append x.text _).isInfix
  exact hfirst.trans (last_infix_joinStretches front _)

theorem pass_joinStretches {F f g : Text → Text} {xs : List RuleStretch}
    (hstep : ∀ x ∈ xs, ∀ t, F (x.text ++ x.brace :: t) = (x.map f g).text ++ x.brace :: F t)
    (last : Text) :
    F (joinStretches xs last) = joinStretches (xs.map (RuleStretch.map f g)) (F last) := by
  induction xs with
  | nil => rfl
  | cons x xs ih =>
    obtain ⟨hx, hxs⟩ := List.forall_mem_cons.1 hstep
    rw [joinStretches, hx, ih hxs, List.map_cons, joinStretches]
    rfl

namespace RuleSheet

/-- The stretches of a sheet. -/
def stretches (s : RuleSheet) : List RuleStretch := stretchesOfBlocks s.blocks

variable {f g f' g' : Text → Text}

theorem text_eq (s : RuleSheet) : s.text = joinStretches s.stretches s.rest :=
  textOfBlocks_append s.blocks s.rest

theorem stretches_map (s : RuleSheet) :
    (s.map f g).stretches = s.stretches.map (RuleStretch.map f g) :=
  stretchesOfBlocks_map f g s.blocks

theorem text_map (s : RuleSheet) :
    (s.map f g).text = joinStretches (s.stretches.map (RuleStretch.map f g)) (g s.rest) := by
  rw [text_eq, stretches_map]
  rfl

theorem text_map_map (s : RuleSheet) :
    ((s.map f g).map f' g').text = (s.map (f' ∘ f) (g' ∘ g)).text := by
  rw [text_map, text_map, stretches_map, List.map_map]
  exact congrArg (joinStretches · _) (List.map_congr_left fun x _ => RuleStretch.map_map)

/-- What the functions do to other texts does not matter. -/
theorem text_map_congr {s : RuleSheet}
    (hpreludes : ∀ x ∈ s.stretches, x.opens = true → f x.text = f' x.text)
    (hvalues : ∀ x ∈ s.stretches, x.opens = false → g x.text = g' x.text)
    (hrest : g s.rest = g' s.rest) : (s.map f g).text = (s.map f' g').text := by
  rw [text_map, text_map, hrest]
  exact congrArg (joinStretches · _)
    (List.map_congr_left fun x hx => RuleStretch.map_congr (hpreludes x hx) (hvalues x hx))

theorem text_map_id (s : RuleSheet) : (s.map id id).text = s.text := by
  have hsame : ∀ x : RuleStretch, x.map id id = x := fun x => by rw [RuleStretch.map, ite_self]; rfl
  rw [text_map, text_eq, List.map_congr_left fun x _ => hsame x, List.map_id']
  rfl

theorem rest_infix_text (s : RuleSheet) : s.rest <:+: s.text := by
  rw [text_eq]
  exact last_infix_joinStretches s.stretches s.rest

/-- Each stretch is a part of the whole. -/
theorem infix_text {s : RuleSheet} {x : RuleStretch} (hx : x ∈ s.stretches) :
    x.text <:+: s.text := by
  rw [text_eq]
  exact infix_joinStretches hx s.rest

/-- **A pass that goes on at each delimiter acts on the stretches one by one.** -/
theorem pass_text {F : Text → Text} {s : RuleSheet}
    (hstep : ∀ x ∈ s.stretches, ∀ t,
      F (x.text ++ x.brace :: t) = (x.map f g).text ++ x.brace :: F t)
    (hrest : F s.rest = g s.rest) : F s.text = (s.map f g).text := by
  rw [text_eq, text_map, pass_joinStretches hstep, hrest]

end RuleSheet

/-! ## Placeholders in stretches -/

/-- Every brace of the text belongs to a whole placeholder, and no placeholder holds a hash. -/
inductive IsFilled : Text → Prop
  | nil : IsFilled []
  | char {c : Char} {s : Text} : isInnerChar c = true → IsFilled s → IsFilled (c :: s)
  | placeholder {p : Placeholder} {s : Text} : p.IsProper → '#' ∉ p.inner → IsFilled s →
      IsFilled (p.text ++ s)

theorem hide_text_append {p : Placeholder} (hp : p.IsProper) (t : Text) :
    hidePlaceholders (p.text ++ t) = p.hidden ++ hidePlaceholders t := by
  have htext := hide_append_text hp [] t
  rwa [List.nil_append, hide_nil, List.nil_append] at htext

theorem ne_brace_of_isInnerChar {c : Char} (hc : isInnerChar c = true) : c ≠ '\x7b' := by
  rintro rfl
  cases hc

namespace IsFilled

theorem append {s t : Text} (hs : IsFilled s) (ht : IsFilled t) : IsFilled (s ++ t) := by
  induction hs with
  | nil => exact ht
  | char hc _ ih => exact .char hc ih
  | placeholder hp hhash _ ih =>
    rw [List.append_assoc]
    exact .placeholder hp hhash ih

theorem of_chars {s : Text} (h : ∀ c ∈ s, isInnerChar c = true) : IsFilled s := by
  induction s with
  | nil => exact .nil
  | cons c s ih =>
    obtain ⟨hc, hs⟩ := List.forall_mem_cons.1 h
    exact .char hc (ih hs)

/-- In front of a hash, and behind it, a filled text is filled. -/
theorem of_append_hash {w s : Text} (h : IsFilled (w ++ '#' :: s)) : IsFilled w ∧ IsFilled s := by
  generalize he : w ++ '#' :: s = x at h
  induction h generalizing w with
  | nil => simp at he
  | @char c x hc hx ih =>
    cases w with
    | nil =>
      obtain ⟨-, rfl⟩ := List.cons.inj he
      exact ⟨.nil, hx⟩
    | cons d w =>
      rw [List.cons_append, List.cons.injEq] at he
      obtain ⟨rfl, he⟩ := he
      obtain ⟨hw, hs⟩ := ih he
      exact ⟨.char hc hw, hs⟩
  | @placeholder p x hp hhash hx ih =>
    have hnot : '#' ∉ p.text := by simp [Placeholder.text, hhash]
    obtain ⟨w', rfl, hrest⟩ := exists_of_append_eq hnot he.symm
    obtain ⟨hw, hs⟩ := ih hrest.symm
    exact ⟨.placeholder hp hhash hw, hs⟩

/-- Behind characters that are no braces a filled text is filled. -/
theorem of_append {w s : Text} (hw : ∀ c ∈ w, isInnerChar c = true) (h : IsFilled (w ++ s)) :
    IsFilled s := by
  induction w with
  | nil => exact h
  | cons c w ih =>
    obtain ⟨hc, hw⟩ := List.forall_mem_cons.1 hw
    rw [List.cons_append] at h
    generalize he : c :: (w ++ s) = x at h
    cases h with
    | nil => cases he
    | char _ h =>
      obtain ⟨-, rfl⟩ := List.cons.inj he
      exact ih hw h
    | placeholder _ _ _ => exact absurd (List.cons.inj he).1 (ne_brace_of_isInnerChar hc)

section

variable {s : Text} (h : IsFilled s)

include h

/-- A filled text is hidden on its own, whatever stands behind it. -/
theorem hide_append (t : Text) :
    hidePlaceholders (s ++ t) = hidePlaceholders s ++ hidePlaceholders t := by
  induction h with
  | nil => rw [hide_nil, List.nil_append, List.nil_append]
  | char hc _ ih =>
    rw [List.cons_append, hide_cons_of_ne (ne_brace_of_isInnerChar hc),
      hide_cons_of_ne (ne_brace_of_isInnerChar hc), ih, List.cons_append]
  | @placeholder p s hp _ _ ih =>
    rw [List.append_assoc, hide_text_append hp, hide_text_append hp, ih, List.append_assoc]

/-- No brace is left when placeholders are hidden. -/
theorem isInnerChar_of_mem_hide : ∀ c ∈ hidePlaceholders s, isInnerChar c = true := by
  induction h with
  | nil => simp [hide_nil]
  | char hc _ ih =>
    rw [hide_cons_of_ne (ne_brace_of_isInnerChar hc)]
    exact List.forall_mem_cons.2 ⟨hc, ih⟩
  | @placeholder p s hp _ _ ih =>
    rw [hide_text_append hp]
    exact List.forall_mem_append.2 ⟨List.forall_mem_append.2 ⟨List.forall_mem_append.2
      ⟨forall_mem_of_all rfl, hp⟩, forall_mem_of_all rfl⟩, ih⟩

/-- A brace in front of a filled text opens no placeholder. -/
theorem hide_cons_brace (hne : s ≠ []) (t : Text) :
    hidePlaceholders ('\x7b' :: (s ++ t)) = '\x7b' :: hidePlaceholders (s ++ t) := by
  have hnone : Placeholder.pattern.read none ('\x7b' :: (s ++ t)) = none := by
    rw [Option.eq_none_iff_forall_ne_some]
    rintro ⟨q, rest⟩ hq
    obtain ⟨hproper, he⟩ := Placeholder.read_eq_some_iff.1 hq
    have hs : s ++ t = '\x7b' :: (q.inner ++ '\x7d' :: '\x7d' :: rest) := by
      simpa [Placeholder.text] using he
    cases h with
    | nil => exact hne rfl
    | char hc _ => exact ne_brace_of_isInnerChar hc (List.cons.inj hs).1
    | placeholder _ _ _ =>
      -- It would hold the second brace of the placeholder that follows.
      have hinner := (List.cons.inj hs).2
      cases hq : q.inner with
      | nil =>
        rw [hq] at hinner
        exact absurd (List.cons.inj hinner).1 (by decide)
      | cons c w =>
        rw [hq] at hinner
        have hbrace := hproper c (by simp [hq])
        exact ne_brace_of_isInnerChar hbrace (List.cons.inj hinner).1.symm
  refine (Placeholder.pattern.replaceFrom_of_none hnone).trans ?_
  exact congrArg ('\x7b' :: ·) (Pattern.replaceFrom_congr (fun _ _ _ => rfl) _ none _)

end

end IsFilled

/-- The braces of the stretches belong to placeholders, and something stands in front of each
block. -/
def AreFilled (xs : List RuleStretch) : Prop :=
  ∀ x ∈ xs, IsFilled x.text ∧ (x.opens = true → x.text ≠ [])

section

variable {xs : List RuleStretch} {last : Text}

/-- An opening delimiter is no part of a placeholder. -/
theorem AreFilled.hide_cons_brace (hxs : AreFilled xs) (hlast : IsFilled last) :
    hidePlaceholders ('\x7b' :: joinStretches xs last) =
      '\x7b' :: hidePlaceholders (joinStretches xs last) := by
  cases xs with
  | nil =>
    rw [joinStretches]
    by_cases hne : last = []
    · rw [hne, hide_nil]
      exact (Placeholder.pattern.replaceFrom_of_none rfl).trans
        (congrArg ('\x7b' :: ·) (Placeholder.pattern.replaceFrom_nil _ _))
    · have h := hlast.hide_cons_brace hne []
      rwa [List.append_nil] at h
  | cons x xs =>
    obtain ⟨hfilled, hopens⟩ := hxs x (List.mem_cons_self ..)
    rw [joinStretches]
    by_cases hne : x.text = []
    · -- Two opening braces in a row would be two blocks in a row without a prelude between them.
      have hcloses : x.opens = false := by
        cases ho : x.opens with
        | false => rfl
        | true => exact absurd hne (hopens ho)
      have hnone : Placeholder.pattern.read none ('\x7b' :: '\x7d' :: joinStretches xs last) =
          none := by
        show Placeholder.read _ = none
        simp [Placeholder.read, after?]
      rw [hne, RuleStretch.brace, hcloses, if_neg Bool.false_ne_true, List.nil_append]
      refine (Placeholder.pattern.replaceFrom_of_none hnone).trans ?_
      exact congrArg ('\x7b' :: ·) (Pattern.replaceFrom_congr (fun _ _ _ => rfl) _ none _)
    · exact hfilled.hide_cons_brace hne _

theorem AreFilled.hide_joinStretches (hxs : AreFilled xs) (hlast : IsFilled last) :
    hidePlaceholders (joinStretches xs last) =
      joinStretches (xs.map (RuleStretch.map hidePlaceholders hidePlaceholders))
        (hidePlaceholders last) := by
  induction xs with
  | nil => rfl
  | cons x xs ih =>
    obtain ⟨hx, hrest⟩ := List.forall_mem_cons.1 hxs
    have hbrace : hidePlaceholders (x.brace :: joinStretches xs last) =
        x.brace :: hidePlaceholders (joinStretches xs last) := by
      rw [RuleStretch.brace]
      split
      · exact AreFilled.hide_cons_brace hrest hlast
      · exact hide_cons_of_ne (by decide) _
    rw [joinStretches, hx.1.hide_append, hbrace, ih hrest, List.map_cons, joinStretches,
      RuleStretch.map, ite_self]
    rfl

end

/-- **Placeholders are hidden stretch by stretch.** -/
theorem RuleSheet.hide_text {s : RuleSheet} (hs : AreFilled s.stretches) (hrest : IsFilled s.rest) :
    hidePlaceholders s.text = (s.map hidePlaceholders hidePlaceholders).text := by
  rw [text_eq, text_map, hs.hide_joinStretches hrest]

/-- They are restored stretch by stretch. -/
theorem RuleSheet.restore_text (s : RuleSheet) :
    restorePlaceholders s.text = (s.map restorePlaceholders restorePlaceholders).text := by
  refine pass_text (fun x _ t => ?_) rfl
  have hbrace : x.brace ∉ ['_', 'o', 'O'] := by
    rw [RuleStretch.brace]
    split <;> decide
  have hfirst : x.brace ≠ '_' := fun he => hbrace (by rw [he]; decide)
  rw [restore_append_cons hbrace, restore_cons_of_ne hfirst, RuleStretch.map, ite_self]

/-! ## Selectors in stretches -/

section

variable (r : Renaming)

/-- Where no selectors lead to a brace it does not matter what stands in front. -/
theorem renamePreludes_congr_of_none {s : Text} (h : Prelude.readSelectors s = none)
    (prev prev' : Option Char) : renamePreludes r prev s = renamePreludes r prev' s := by
  have hread : ∀ prev, Prelude.pattern.read prev s = Prelude.pattern.read none s := by
    intro prev
    show Prelude.read prev s = Prelude.read none s
    rw [Prelude.read, Prelude.read, h, ite_self, ite_self]
  cases s with
  | nil => rw [renamePreludes, renamePreludes, Pattern.replaceFrom_nil, Pattern.replaceFrom_nil]
  | cons c s =>
    cases hnone : Prelude.pattern.read none (c :: s) with
    | none =>
      rw [renamePreludes, renamePreludes, Pattern.replaceFrom_of_none _ ((hread prev).trans hnone),
        Pattern.replaceFrom_of_none _ ((hread prev').trans hnone)]
    | some found =>
      rw [renamePreludes, renamePreludes, Pattern.replaceFrom_of_read _ ((hread prev).trans hnone),
        Pattern.replaceFrom_of_read _ ((hread prev').trans hnone)]

/-- Behind a delimiter a sheet goes on as it would begin. -/
theorem renamePreludes_cons_brace {c : Char} (hc : isInnerChar c = false) (prev : Option Char)
    (s : Text) : renamePreludes r prev (c :: s) = c :: renamePreludes r none s := by
  by_cases hopens : ∃ sel t, s = sel ++ '\x7b' :: t ∧ ∀ d ∈ sel, isInnerChar d = true
  · obtain ⟨sel, t, rfl, hsel⟩ := hopens
    rw [renamePreludes_cons r hc hsel, renamePreludes_start r hsel]
  · have hnone : Prelude.readSelectors s = none := by
      cases hrun : run isInnerChar s with
      | mk sel rest =>
        obtain ⟨hs, hsel, -⟩ := run_eq_iff.1 hrun
        rw [Prelude.readSelectors, hrun]
        split
        · rename_i he
          obtain ⟨rfl, rfl⟩ := Prod.mk.inj he
          exact absurd ⟨_, _, hs, hsel⟩ hopens
        · rfl
    have hread : Prelude.pattern.read prev (c :: s) = none := by
      refine (Prelude.read_cons_brace hc prev s).trans ?_
      rw [hnone, Option.map_none]
    rw [renamePreludes, Pattern.replaceFrom_of_none _ hread]
    exact congrArg (c :: ·) (renamePreludes_congr_of_none r hnone _ none)

/-- A text that leads to no opening brace is copied. -/
theorem renamePreludes_append {w t : Text} (hw : ∀ c ∈ w, isInnerChar c = true)
    (ht : ∀ c ∈ t.head?, c = '\x7d') :
    renamePreludes r none (w ++ t) = w ++ renamePreludes r none t := by
  have hnone : ∀ v, v <:+ w → Prelude.readSelectors (v ++ t) = none := by
    intro v hv
    have hrun : run isInnerChar (v ++ t) = (v, t) := by
      refine run_eq_iff.2 ⟨rfl, fun c hc => hw c (hv.subset hc), fun c hc => ?_⟩
      rw [ht c hc]
      rfl
    rw [Prelude.readSelectors, hrun]
    split
    · rename_i he
      obtain ⟨-, rfl⟩ := Prod.mk.inj he
      exact absurd (ht _ rfl) (by decide)
    · rfl
  have hsilent : Prelude.pattern.Silent none w t := by
    refine Prelude.pattern.silent_of_forall_suffix ?_ none
    intro v hne hv prev
    obtain ⟨c, v, rfl⟩ := List.exists_cons_of_ne_nil hne
    have hc : isInnerChar c = true := hw c (hv.subset (List.mem_cons_self ..))
    have h := hnone _ hv
    refine (Prelude.read_cons_inner hc prev (v ++ t)).trans ?_
    rw [List.cons_append] at h
    rw [h, Option.map_none, ite_self]
  refine (Pattern.replaceFrom_append_of_silent hsilent).trans ?_
  exact congrArg (w ++ ·) (renamePreludes_congr_of_none r (hnone [] List.nil_suffix) _ none)

end

/-- **Selectors are renamed in preludes, and in no other stretch.** -/
theorem RuleSheet.renamePreludes_text (r : Renaming) {s : RuleSheet}
    (hs : ∀ x ∈ s.stretches, ∀ c ∈ x.text, isInnerChar c = true)
    (hrest : ∀ c ∈ s.rest, isInnerChar c = true) :
    renamePreludes r none s.text = (s.map (renameSelectors r) id).text := by
  refine pass_text (fun x hx t => ?_) ?_
  · obtain ⟨text, opens⟩ := x
    cases opens with
    | true =>
      show renamePreludes r none (text ++ '\x7b' :: t) = renameSelectors r text ++ '\x7b' :: _
      rw [renamePreludes_start r (hs _ hx), renamePreludes_cons_brace r rfl]
    | false =>
      show renamePreludes r none (text ++ '\x7d' :: t) = text ++ '\x7d' :: _
      rw [renamePreludes_append r (hs _ hx) (by simp), renamePreludes_cons_brace r rfl]
  · have hnil : renamePreludes r none [] = [] := Prelude.pattern.replaceFrom_nil _ none
    have h := renamePreludes_append r hrest (t := []) (by simp)
    rwa [List.append_nil, hnil, List.append_nil] at h

end SvgAssets.Stylesheet
