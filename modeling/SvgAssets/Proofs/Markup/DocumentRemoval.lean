/-
# SvgAssets.Proofs.Markup.DocumentRemoval -- documents with elements taken out

A document is a list of items: text, marks, and the blocks of style and script elements. Every
removal takes out whole items, for its tokens begin and end with angle brackets, and no bracket
stands but at the ends of a mark or within a block. So a document without styles and scripts is the
list of the items that are kept (`bareMarkup_items`), and so is one without asides.
-/
import SvgAssets.Markup.Compact
import SvgAssets.Proofs.Markup.ElementRemoval
import SvgAssets.Proofs.Xml.Versions

namespace SvgAssets

namespace Pattern

open Text

variable {α : Type} {p : Pattern α}

/-- A text without the first character of tokens is silent. -/
theorem silent_of_notMem {first : Char} (hfirst : ∀ x, (p.text x).head? = some first) {w : Text}
    (hw : first ∉ w) (prev : Option Char) (t : Text) : p.Silent prev w t := by
  refine p.silent_of_forall_suffix (fun v hne hv prev => ?_) prev
  obtain ⟨c, v, rfl⟩ := List.exists_cons_of_ne_nil hne
  refine p.read_cons_eq_none hfirst ?_ prev _
  rintro rfl
  exact hw (hv.subset (List.mem_cons_self ..))

/-- Where tokens end with the first bracket, what is read in front of a bracket does not depend on
what stands behind it. -/
theorem read_append_of_mem {proper : α → Prop}
    (hread : ∀ prev s a rest, p.read prev s = some (a, rest) ↔ proper a ∧ s = p.text a ++ rest)
    {last : Char} (hlast : ∀ a, proper a → ∃ w, p.text a = w ++ [last] ∧ last ∉ w) {s : Text}
    (hs : last ∈ s) (prev : Option Char) (t : Text) :
    p.read prev (s ++ t) = (p.read prev s).map fun (a, rest) => (a, rest ++ t) := by
  cases hfound : p.read prev s with
  | some found =>
    obtain ⟨a, rest⟩ := found
    obtain ⟨ha, rfl⟩ := (hread _ _ _ _).1 hfound
    exact (hread _ _ _ _).2 ⟨ha, List.append_assoc ..⟩
  | none =>
    rw [Option.map_none, Option.eq_none_iff_forall_ne_some]
    rintro ⟨a, rest⟩ hacross
    obtain ⟨ha, he⟩ := (hread _ _ _ _).1 hacross
    obtain ⟨w, hw, hnot⟩ := hlast a ha
    obtain ⟨x, y, rfl⟩ := List.append_of_mem hs
    rw [hw, List.append_assoc, List.append_assoc, List.singleton_append] at he
    -- The token ends at the latest where the bracket stands.
    have hwithin : ∀ u, x ++ last :: y = p.text a ++ u → False := by
      intro u hu
      rw [(hread prev _ a u).2 ⟨ha, hu⟩] at hfound
      cases hfound
    rcases exists_of_append_eq_append_cons he with ⟨z, rfl, hz⟩ | ⟨z, rfl, -⟩
    · cases z with
      | nil => exact hwithin y (by simp [hw])
      | cons c z =>
        obtain ⟨rfl, -⟩ := List.cons.inj hz
        exact hnot (by simp)
    · exact hwithin (z ++ last :: y) (by simp [hw])

theorem Silent.read_eq_none {prev : Option Char} {w t v : Text} (h : p.Silent prev w t)
    (hne : v ≠ []) (hv : v <:+ w) : ∃ prev', p.read prev' (v ++ t) = none := by
  induction w generalizing prev with
  | nil => exact absurd (List.suffix_nil.1 hv) hne
  | cons c w ih =>
    rcases List.suffix_cons_iff.1 hv with rfl | hv
    · exact ⟨prev, h.1⟩
    · exact ih h.2 hv

end Pattern

namespace Markup

open Text Xml

/-! ## Tags that are read -/

namespace OpenTag

variable {name : Text} (hname : IsTagName name) {admits : Text → Bool}

include hname

theorem read_append {s : Text} (hs : '>' ∈ s) (t : Text) :
    read name admits (s ++ t) = (read name admits s).map fun (a, rest) => (a, rest ++ t) := by
  have hread : ∀ prev s a rest, (pattern name admits).read prev s = some (a, rest) ↔
      (a.IsProper name ∧ admits a.attributes = true) ∧ s = a.text ++ rest := by
    intro prev s a rest
    rw [and_assoc]
    exact read_eq_some_iff
  refine (pattern name admits).read_append_of_mem hread ?_ hs none t
  · rintro a ⟨ha, -⟩
    exact ⟨'<' :: a.name ++ a.attributes, rfl, fun hmem =>
      absurd (not_bracket_of_mem hname ha _ hmem) (by decide)⟩

end OpenTag

theorem CloseTag.read_append {name : Text} (hname : IsTagName name) {s : Text} (hs : '>' ∈ s)
    (t : Text) : read name (s ++ t) = (read name s).map fun (a, rest) => (a, rest ++ t) := by
  have hread : ∀ prev s a rest, (pattern name).read prev s = some (a, rest) ↔
      a.IsProper name ∧ s = a.text ++ rest := fun _ _ _ _ => read_eq_some_iff
  refine (pattern name).read_append_of_mem hread ?_ hs none t
  · intro a ha
    refine ⟨'<' :: '/' :: a.name ++ a.gap, rfl, fun hmem => ?_⟩
    rcases List.mem_cons.1 hmem with he | hmem
    · exact absurd he (by decide)
    · exact (ha.inside_chars hname _ hmem).1 (by decide)

namespace Block

variable {name : Text} (hname : IsTagName name)

include hname

theorem firstFrom_append {prev : Option Char} {s before rest : Text} {a : CloseTag}
    (h : (CloseTag.pattern name).firstFrom prev s = some (before, a, rest)) (t : Text) :
    (CloseTag.pattern name).firstFrom prev (s ++ t) = some (before, a, rest ++ t) := by
  have hmem : '>' ∈ s := by
    rw [Pattern.firstFrom_eq_some _ h]
    simp [CloseTag.pattern, CloseTag.text]
  induction s generalizing prev before with
  | nil => cases hmem
  | cons c s ih =>
    have hread : (CloseTag.pattern name).read prev (c :: (s ++ t)) =
        ((CloseTag.pattern name).read prev (c :: s)).map fun (a, rest) => (a, rest ++ t) :=
      CloseTag.read_append hname hmem t
    rw [Pattern.firstFrom] at h
    rw [List.cons_append, Pattern.firstFrom, hread]
    cases hfound : (CloseTag.pattern name).read prev (c :: s) with
    | some found =>
      rw [hfound] at h
      cases h
      rfl
    | none =>
      rw [hfound] at h
      obtain ⟨⟨before, found⟩, hfirst, he⟩ := Option.map_eq_some_iff.1 h
      cases he
      have hbehind : '>' ∈ s := by
        rw [Pattern.firstFrom_eq_some _ hfirst]
        simp [CloseTag.pattern, CloseTag.text]
      simp only [Option.map_none, ih hfirst hbehind, Option.map_some]

/-- A block is read alike whatever stands behind it. -/
theorem read_append {s rest : Text} {b : Block} (h : read name s = some (b, rest)) (t : Text) :
    read name (s ++ t) = some (b, rest ++ t) := by
  rw [read] at h
  split at h
  · cases h
  · rename_i opening behind hopening
    obtain ⟨⟨content, closing, rest⟩, hfirst, he⟩ := Option.map_eq_some_iff.1 h
    cases he
    have hmem : '>' ∈ s := by
      rw [OpenTag.text_of_read hopening]
      simp [OpenTag.text]
    rw [read, OpenTag.read_append hname hmem, hopening, Option.map_some]
    simp only [firstFrom_append hname hfirst, Option.map_some]

end Block

/-! ## Items -/

/-- A part of a document: text, what stands between two brackets, or a style or script element. -/
inductive Item where
  | plain (s : Text)
  | mark (k : Mark)
  | block (b : Block)

/-- No element of a name begins within the block. -/
structure Block.HoldsNo (name : Text) (b : Block) : Prop where
  content : (OpenTag.pattern name Attributes.admitsContent).tokens b.text = []
  empty : (Block.emptyElement name).tokens b.text = []

namespace Item

/-- The item as it stands in the document. -/
def text : Item → Text
  | .plain s => s
  | .mark k => k.text
  | .block b => b.text

/-- A name that blocks may have. -/
def IsBlockName (name : Text) : Prop := name = styleName ∨ name = scriptName

/-- Text and marks can be read; a block may hold anything. -/
def IsProper : Item → Prop
  | .plain s => IsData s
  | .mark k => k.IsProper
  | .block _ => True

/-- At no mark does a block begin, and no style begins within a script, so that every block is found
as it is. -/
def IsClear : Item → Prop
  | .plain _ => True
  | .mark k => ∀ name, IsBlockName name → OpenTag.read name Attributes.admitsContent k.text = none
  | .block b => Block.read styleName b.text = some (b, []) ∨
      Block.read scriptName b.text = some (b, []) ∧ b.HoldsNo styleName

end Item

/-- The text of items. -/
def itemsText (items : List Item) : Text := items.flatMap Item.text

/-- **A removal takes out items**, if at each item it finds either the whole item or nothing. -/
theorem erase_items {α : Type} {p : Pattern α} {drops : Item → Bool} {items : List Item}
    (hdrops : ∀ i ∈ items, drops i = true → ∀ prev rest, ∃ a, p.read prev (i.text ++ rest) =
      some (a, rest))
    (hkeeps : ∀ i ∈ items, drops i = false → ∀ prev rest, p.Silent prev i.text rest) :
    p.erase (itemsText items) = itemsText (items.filter fun i => !drops i) := by
  have hfrom : ∀ prev, p.eraseFrom prev (itemsText items) =
      itemsText (items.filter fun i => !drops i) := by
    induction items with
    | nil => exact fun prev => p.replaceFrom_nil _ prev
    | cons i items ih =>
      intro prev
      rw [List.forall_mem_cons] at hdrops hkeeps
      have hrest := ih hdrops.2 hkeeps.2
      rw [itemsText, List.flatMap_cons]
      cases hdrop : drops i with
      | true =>
        obtain ⟨a, hread⟩ := hdrops.1 hdrop prev (itemsText items)
        rw [Pattern.eraseFrom, p.replaceFrom_of_read (by exact hread), List.nil_append,
          List.filter_cons_of_neg (by simp [hdrop])]
        exact hrest _
      | false =>
        have hsilent := hkeeps.1 hdrop prev (itemsText items)
        rw [Pattern.eraseFrom, Pattern.replaceFrom_append_of_silent (by exact hsilent),
          List.filter_cons_of_pos (by simp [hdrop]), itemsText, List.flatMap_cons]
        exact congrArg _ (hrest _)
  exact hfrom none

/-! ## Styles and scripts -/

section

variable {α : Type} {p : Pattern α} (hfirst : ∀ x, (p.text x).head? = some '<')

include hfirst

theorem silent_plain {s : Text} (hs : IsData s) (prev : Option Char) (rest : Text) :
    p.Silent prev s rest :=
  Pattern.silent_of_notMem hfirst (fun hmem => (hs.not_bracket _ hmem).1 rfl) prev rest

/-- Where nothing is read at a mark, nothing is read within it. -/
theorem silent_mark {k : Mark} (hk : k.IsProper) {prev : Option Char} {rest : Text}
    (hnone : p.read prev (k.text ++ rest) = none) : p.Silent prev k.text rest := by
  refine ⟨hnone, Pattern.silent_of_notMem hfirst (fun hmem => ?_) _ _⟩
  rcases List.mem_append.1 hmem with hmem | hmem
  · exact (hk.not_bracket _ hmem).1 rfl
  · exact absurd hmem (by decide)

end

theorem gt_mem_text (k : Mark) : '>' ∈ k.text := by simp [Mark.text]

/-- A tag that is read at a mark is all of it. -/
theorem eq_nil_of_text_eq {k : Mark} (hk : k.IsProper) {t : OpenTag} {behind : Text}
    (h : k.text = t.text ++ behind) : behind = [] := by
  rcases List.eq_nil_or_concat behind with rfl | ⟨behind, c, rfl⟩
  · rfl
  · rw [List.concat_eq_append, ← List.append_assoc] at h
    obtain ⟨hfront, -⟩ := List.append_inj' h rfl
    have hmem : '>' ∈ '<' :: k.inner := by
      rw [hfront]
      simp [OpenTag.text]
    rcases List.mem_cons.1 hmem with he | hmem
    · exact absurd he (by decide)
    · exact absurd rfl (hk.not_bracket _ hmem).2

section

variable {name : Text} (hname : IsTagName name)

include hname

/-- Where no tag of a kind begins, none is read. -/
theorem OpenTag.read_eq_none_of_tokens {admits : Text → Bool} {s : Text}
    (h : (OpenTag.pattern name admits).tokens (s ++ ['>']) = []) {v : Text} (hne : v ≠ [])
    (hv : v <:+ s ++ ['>']) (rest : Text) : OpenTag.read name admits (v ++ rest) = none := by
  have hmem : '>' ∈ v := by
    obtain ⟨w, c, rfl⟩ := (List.eq_nil_or_concat v).resolve_left hne
    obtain ⟨x, hx⟩ := hv
    rw [List.concat_eq_append, ← List.append_assoc] at hx
    obtain ⟨-, hc⟩ := List.append_inj' hx rfl
    simp [hc]
  obtain ⟨prev, hnone⟩ :=
    ((OpenTag.pattern name admits).silent_of_tokens_eq_nil h).read_eq_none hne hv
  rw [List.append_nil] at hnone
  rw [OpenTag.read_append hname hmem, show OpenTag.read name admits v = none from hnone,
    Option.map_none]

end

theorem Block.read_eq_none {name s : Text}
    (h : OpenTag.read name Attributes.admitsContent s = none) : read name s = none := by
  rw [read, h]

theorem Block.exists_text_eq (b : Block) : ∃ s, b.text = s ++ ['>'] :=
  ⟨b.opening.text ++ b.content ++ ('<' :: '/' :: b.closing.name ++ b.closing.gap), by
    simp [text, CloseTag.text]⟩

theorem Block.HoldsNo.read_eq_none {name : Text} (hname : IsTagName name) {b : Block}
    (h : b.HoldsNo name) {v : Text} (hne : v ≠ []) (hv : v <:+ b.text) (rest : Text) :
    Block.read name (v ++ rest) = none ∧
      OpenTag.read name Attributes.isEmptyElement (v ++ rest) = none := by
  obtain ⟨hcontent, hempty⟩ := h
  obtain ⟨s, hs⟩ := b.exists_text_eq
  rw [hs] at hv hcontent hempty
  exact ⟨Block.read_eq_none (OpenTag.read_eq_none_of_tokens hname hcontent hne hv rest),
    OpenTag.read_eq_none_of_tokens hname hempty hne hv rest⟩

namespace Item

/-- The item is a block of a name. -/
def isBlock (name : Text) : Item → Bool
  | .block b => (Block.read name b.text).isSome
  | _ => false

/-- The item is an empty element of a name. -/
def isEmptyElement (name : Text) : Item → Bool
  | .mark k => (OpenTag.read name Attributes.isEmptyElement k.text).isSome
  | _ => false

/-- The item is an element of a name. -/
def isElement (name : Text) (i : Item) : Bool := i.isBlock name || i.isEmptyElement name

end Item

section

variable {name : Text} (hname : IsTagName name) {items : List Item}
  (hplain : ∀ s, .plain s ∈ items → IsData s)
  (hmarks : ∀ k, .mark k ∈ items → k.IsProper ∧
    OpenTag.read name Attributes.admitsContent k.text = none)
  (hblocks : ∀ b, .block b ∈ items → Block.read name b.text = some (b, []) ∨
    b.HoldsNo name)

include hname hplain hmarks hblocks

theorem erase_blocks : (Block.pattern name).erase (itemsText items) =
    itemsText (items.filter fun i => !i.isBlock name) := by
  refine erase_items (fun i hi hdrop prev rest => ?_) (fun i hi hkeep prev rest => ?_)
  · cases i with
    | plain s => cases hdrop
    | mark k => cases hdrop
    | block b =>
      obtain ⟨⟨b', behind⟩, hread⟩ := Option.isSome_iff_exists.1 hdrop
      rcases hblocks b hi with hb | hnone
      · exact ⟨b, Block.read_append hname hb rest⟩
      · have hread' := (hnone.read_eq_none hname (by simp [Block.text, OpenTag.text])
          (List.suffix_refl _) []).1
        rw [List.append_nil, hread] at hread'
        cases hread'
  · cases i with
    | plain s => exact silent_plain (fun _ => rfl) (hplain s hi) prev rest
    | mark k =>
      obtain ⟨hk, hnone⟩ := hmarks k hi
      refine silent_mark (p := Block.pattern name) (fun _ => rfl) hk (Block.read_eq_none ?_)
      rw [OpenTag.read_append hname (gt_mem_text k), hnone, Option.map_none]
    | block b =>
      rcases hblocks b hi with hb | hnone
      · rw [Item.isBlock, hb] at hkeep
        cases hkeep
      · exact (Block.pattern name).silent_of_forall_suffix
          (fun v hne hv _ => (hnone.read_eq_none hname hne hv rest).1) prev

theorem erase_emptyElements (hno : ∀ i ∈ items, i.isBlock name = false) :
    (Block.emptyElement name).erase (itemsText items) =
      itemsText (items.filter fun i => !i.isEmptyElement name) := by
  refine erase_items (fun i hi hdrop prev rest => ?_) (fun i hi hkeep prev rest => ?_)
  · cases i with
    | plain s => cases hdrop
    | mark k =>
      obtain ⟨⟨t, behind⟩, hread⟩ := Option.isSome_iff_exists.1 hdrop
      obtain rfl := eq_nil_of_text_eq (hmarks k hi).1 (OpenTag.text_of_read hread)
      refine ⟨t, ?_⟩
      show OpenTag.read name Attributes.isEmptyElement (k.text ++ rest) = some (t, rest)
      rw [OpenTag.read_append hname (gt_mem_text k), hread]
      rfl
    | block b => cases hdrop
  · cases i with
    | plain s => exact silent_plain (fun _ => rfl) (hplain s hi) prev rest
    | mark k =>
      refine silent_mark (p := Block.emptyElement name) (fun _ => rfl) (hmarks k hi).1 ?_
      show OpenTag.read name Attributes.isEmptyElement (k.text ++ rest) = none
      have hnone : OpenTag.read name Attributes.isEmptyElement k.text = none :=
        Option.isNone_iff_eq_none.1 (Option.isSome_eq_false_iff.1 hkeep)
      rw [OpenTag.read_append hname (gt_mem_text k), hnone, Option.map_none]
    | block b =>
      rcases hblocks b hi with hb | hnone
      · have hkept := hno _ hi
        rw [Item.isBlock, hb] at hkept
        cases hkept
      · exact (Block.emptyElement name).silent_of_forall_suffix
          (fun v hne hv _ => (hnone.read_eq_none hname hne hv rest).2) prev

/-- **Removing elements takes out their items.** -/
theorem removeElements_items : removeElements name (itemsText items) =
    itemsText (items.filter fun i => !i.isElement name) := by
  have hfilter : items.filter (fun i => !i.isElement name) =
      (items.filter fun i => !i.isBlock name).filter fun i => !i.isEmptyElement name := by
    rw [List.filter_filter]
    refine List.filter_congr fun i _ => ?_
    rw [Item.isElement, Bool.not_or, Bool.and_comm]
  rw [removeElements, erase_blocks hname hplain hmarks hblocks, hfilter]
  refine erase_emptyElements hname (fun s hs => hplain s (List.mem_filter.1 hs).1)
    (fun k hk => hmarks k (List.mem_filter.1 hk).1) (fun b hb => hblocks b (List.mem_filter.1 hb).1)
    fun i hi => ?_
  simpa using (List.mem_filter.1 hi).2

end

end Markup

end SvgAssets
