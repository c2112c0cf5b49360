/-
# SvgAssets.Proofs.Markup.Documents -- documents with one root element

A document is a root element with items in it, between white space and asides (`Document`). Taking
styles, scripts and asides out of it filters its items, and exchanges make versions of its parts, so
it stays a document of this form: its marks still lead from the root element back to it.
-/
import SvgAssets.Proofs.Markup.DocumentRemoval

namespace SvgAssets.Markup

open Text Xml

/-! ## White space and asides -/

theorem isDataChar_of_isSpace {c : Char} (h : isSpace c = true) : isDataChar c = true := by
  simp only [isSpace, Bool.or_eq_true, beq_iff_eq] at h
  rcases h with ((rfl | rfl) | rfl) | rfl <;> decide +kernel

theorem isData_of_space {s : Text} (h : ∀ c ∈ s, isSpace c = true) : IsData s :=
  .of_forall fun c hc => isDataChar_of_isSpace (h c hc)

/-- What may stand around the root element: white space and asides. -/
def Item.IsOuter : Item → Prop
  | .plain s => ∀ c ∈ s, isSpace c = true
  | .mark (.aside inner) => IsAside inner
  | _ => False

theorem Item.IsOuter.isProper {i : Item} (h : i.IsOuter) : i.IsProper := by
  cases i with
  | plain s => exact isData_of_space h
  | mark k =>
    cases k with
    | aside inner => exact h
    | _ => exact absurd h not_false
  | block b => exact absurd h not_false

/-- The characters that asides begin with. -/
theorem head?_of_isAside {inner : Text} (h : IsAside inner) :
    inner.head? = some '!' ∨ inner.head? = some '?' := by
  obtain ⟨x, hx, body, rfl, -⟩ := h
  rcases List.mem_pair.1 hx with rfl | rfl
  · exact .inl rfl
  · exact .inr rfl

/-! ## Marks and the texts behind them -/

/-- The mark that an item is. -/
def Item.mark? : Item → Option Mark
  | .mark k => some k
  | _ => none

/-- The marks among items. -/
def marksOf (items : List Item) : List Mark := items.filterMap Item.mark?

@[simp] theorem marksOf_plain (s : Text) (items : List Item) :
    marksOf (.plain s :: items) = marksOf items := rfl

@[simp] theorem marksOf_mark (k : Mark) (items : List Item) :
    marksOf (.mark k :: items) = k :: marksOf items := rfl

@[simp] theorem marksOf_block (b : Block) (items : List Item) :
    marksOf (.block b :: items) = marksOf items := rfl

theorem mem_marksOf {items : List Item} {k : Mark} : k ∈ marksOf items ↔ .mark k ∈ items := by
  rw [marksOf, List.mem_filterMap]
  constructor
  · rintro ⟨i, hi, hk⟩
    cases i <;> cases hk
    exact hi
  · exact fun h => ⟨.mark k, h, rfl⟩

theorem marksOf_filter (keep : Item → Bool) (items : List Item) :
    marksOf (items.filter keep) = (marksOf items).filter fun k => keep (.mark k) := by
  induction items with
  | nil => rfl
  | cons i items ih =>
    rw [List.filter_cons]
    cases i <;> split <;> simp_all

theorem itemsText_append (items items' : List Item) :
    itemsText (items ++ items') = itemsText items ++ itemsText items' := List.flatMap_append

theorem itemsText_cons (i : Item) (items : List Item) :
    itemsText (i :: items) = i.text ++ itemsText items := rfl

/-- The text in front of the first mark, and the marks with the texts behind them. -/
def spansOf : List Item → Text × Spans
  | [] => ([], [])
  | .plain s :: items => (s ++ (spansOf items).1, (spansOf items).2)
  | .mark k :: items => ([], (k, (spansOf items).1) :: (spansOf items).2)
  | .block _ :: items => spansOf items

theorem text_spansOf {items : List Item} (h : ∀ b, .block b ∉ items) :
    (spansOf items).1 ++ spansText (spansOf items).2 = itemsText items := by
  induction items with
  | nil => rfl
  | cons i items ih =>
    have hrest := ih fun b hb => h b (List.mem_cons_of_mem _ hb)
    rw [itemsText_cons, ← hrest]
    cases i with
    | plain s => simp [spansOf, Item.text]
    | mark k => simp [spansOf, Item.text, spansText]
    | block b => exact absurd (List.mem_cons_self ..) (h b)

theorem marks_spansOf (items : List Item) : (spansOf items).2.map Prod.fst = marksOf items := by
  induction items with
  | nil => rfl
  | cons i items ih => cases i <;> simpa [spansOf] using ih

theorem spansOf_append_mark (items : List Item) (k : Mark) (rest : List Item) :
    spansOf (items ++ .mark k :: rest) =
      ((spansOf items).1, (spansOf items).2 ++ (k, (spansOf rest).1) :: (spansOf rest).2) := by
  induction items with
  | nil => rfl
  | cons i items ih => cases i <;> simp [spansOf, ih]

theorem areProper_spansOf {items : List Item} (h : ∀ i ∈ items, i.IsProper) :
    IsData (spansOf items).1 ∧ AreProper (spansOf items).2 := by
  induction items with
  | nil => exact ⟨.nil, nofun⟩
  | cons i items ih =>
    obtain ⟨hi, hitems⟩ := List.forall_mem_cons.1 h
    obtain ⟨hlead, hspans⟩ := ih hitems
    cases i with
    | plain s => exact ⟨IsData.append hi hlead, hspans⟩
    | mark k => exact ⟨.nil, List.forall_mem_cons.2 ⟨⟨hi, hlead⟩, hspans⟩⟩
    | block b => exact ⟨hlead, hspans⟩

/-- White space, and asides with white space behind them. -/
def IsSurrounding (lead : Text) (spans : Spans) : Prop :=
  (∀ c ∈ lead, isSpace c = true) ∧
    ∀ x ∈ spans, (∃ inner, x.1 = .aside inner) ∧ ∀ c ∈ x.2, isSpace c = true

theorem isSurrounding_spansOf {items : List Item} (h : ∀ i ∈ items, i.IsOuter) :
    IsSurrounding (spansOf items).1 (spansOf items).2 := by
  induction items with
  | nil => exact ⟨nofun, nofun⟩
  | cons i items ih =>
    obtain ⟨hi, hitems⟩ := List.forall_mem_cons.1 h
    obtain ⟨hlead, hspans⟩ := ih hitems
    cases i with
    | plain s => exact ⟨List.forall_mem_append.2 ⟨hi, hlead⟩, hspans⟩
    | mark k =>
      cases k with
      | aside inner => exact ⟨nofun, List.forall_mem_cons.2 ⟨⟨⟨inner, rfl⟩, hlead⟩, hspans⟩⟩
      | _ => exact absurd hi not_false
    | block b => exact absurd hi not_false

/-- A text, and marks with the texts behind them, as items. -/
def itemsOf (lead : Text) (spans : Spans) : List Item :=
  .plain lead :: spans.flatMap fun (k, behind) => [.mark k, .plain behind]

theorem itemsText_itemsOf (lead : Text) (spans : Spans) :
    itemsText (itemsOf lead spans) = lead ++ spansText spans := by
  induction spans generalizing lead with
  | nil => simp [itemsOf, itemsText, Item.text, spansText]
  | cons x spans ih =>
    have hrest := ih x.2
    simp only [itemsOf, itemsText, List.flatMap_cons, Item.text, spansText, List.cons_append,
      List.nil_append, List.append_assoc] at hrest ⊢
    rw [hrest]

theorem marksOf_itemsOf (lead : Text) (spans : Spans) :
    marksOf (itemsOf lead spans) = spans.map Prod.fst := by
  induction spans generalizing lead with
  | nil => rfl
  | cons x spans ih => simpa [itemsOf] using ih x.2

theorem mem_itemsOf {lead : Text} {spans : Spans} {i : Item} (h : i ∈ itemsOf lead spans) :
    i = .plain lead ∨ ∃ x ∈ spans, i = .mark x.1 ∨ i = .plain x.2 := by
  simpa [itemsOf, or_comm] using h

/-- White space and asides stay what they are. -/
theorem isOuter_of_versions {lead lead' : Text} {spans spans' : Spans}
    (h : IsSurrounding lead spans) (hlead : IsTextVersion lead lead')
    (hspans : List.Forall₂ IsSpanVersion spans spans') :
    ∀ i ∈ itemsOf lead' spans', i.IsOuter := by
  intro i hi
  rcases mem_itemsOf hi with rfl | ⟨x', hx', hi⟩
  · rw [hlead.eq_of_space h.1]
    exact h.1
  · obtain ⟨x, hx, hversion⟩ := exists_of_forall₂_of_mem hspans hx'
    obtain ⟨⟨inner, haside⟩, hspace⟩ := h.2 x hx
    rcases hi with rfl | rfl
    · have hlike := hversion.isLike
      have hproper := hversion.isProper
      generalize x'.1 = k at hlike hproper
      rw [haside] at hlike
      cases hlike
      exact hproper
    · rw [hversion.text.eq_of_space hspace]
      exact hspace

/-- What is taken out as an element is an empty one. -/
theorem isSilent_of_isElement {name : Text} (hname : Item.IsBlockName name) {k : Mark}
    (hk : k.IsProper) (h : (Item.mark k).isElement name = true) : k.IsSilent := by
  replace h : (OpenTag.read name Attributes.isEmptyElement k.text).isSome = true := h
  cases k with
  | opening t =>
    obtain ⟨⟨tag, behind⟩, hread⟩ := Option.isSome_iff_exists.1 h
    obtain ⟨-, hadmits, htext⟩ := OpenTag.read_eq_some_iff.1 hread
    obtain rfl := eq_nil_of_text_eq hk htext
    rw [List.append_nil] at htext
    have hinner : t.inner = tag.name ++ tag.attributes := by
      have hbracket : t.inner ++ ['>'] = (tag.name ++ tag.attributes) ++ ['>'] := by
        simpa [Mark.text, Mark.inner, OpenTag.text] using htext
      exact List.append_cancel_right hbracket
    have hlast : tag.attributes.getLast? = some '/' := by
      simp only [Attributes.isEmptyElement, Bool.or_eq_true, Bool.and_eq_true, beq_iff_eq]
        at hadmits
      rcases hadmits with hslash | hadmits
      · rw [hslash]
        rfl
      · exact hadmits.2
    refine WrittenTag.IsProper.isEmpty_of_getLast? hk ?_
    rw [hinner, List.getLast?_append, hlast]
    rfl
  | closing closed gap =>
    have hnone : OpenTag.read name Attributes.isEmptyElement
        (Mark.text (.closing closed gap)) = none := by
      rcases hname with rfl | rfl <;> rfl
    rw [hnone] at h
    cases h
  | aside inner => trivial

/-! ## Documents -/

/-- A root element with items in it and around it. -/
structure Document where
  front : List Item
  root : WrittenTag
  body : List Item
  gap : Text
  back : List Item

namespace Document

/-- The items of a document, the tags of its root element among them. -/
def items (d : Document) : List Item :=
  d.front ++ .mark (.opening d.root) :: (d.body ++ .mark (.closing rootName d.gap) :: d.back)

/-- The document as it is written. -/
def text (d : Document) : Text := itemsText d.items

/-- Around the root element there are white space and asides, and its content leads back to it. -/
structure IsProper (inside : Bindings) (d : Document) : Prop where
  front : ∀ i ∈ d.front, i.IsOuter
  root : d.root.IsProper
  name : d.root.name = ⟨none, rootName⟩
  isOpen : d.root.isEmpty = false
  body : ∀ i ∈ d.body, i.IsProper
  leads : Leads [⟨rootName, inside⟩] (marksOf d.body) [⟨rootName, inside⟩]
  gap : ∀ c ∈ d.gap, isSpace c = true
  back : ∀ i ∈ d.back, i.IsOuter

/-- The document without the items that are not kept. -/
def filter (keep : Item → Bool) (d : Document) : Document :=
  { d with
    front := d.front.filter keep
    body := d.body.filter keep
    back := d.back.filter keep }

variable {d : Document} {inside : Bindings}

theorem items_filter {keep : Item → Bool} (hopening : keep (.mark (.opening d.root)) = true)
    (hclosing : keep (.mark (.closing rootName d.gap)) = true) :
    (d.filter keep).items = d.items.filter keep := by
  simp [items, filter, hopening, hclosing]

theorem IsProper.closing_isProper (h : d.IsProper inside) :
    (Mark.closing rootName d.gap).IsProper := by
  have hname : rootName = d.root.name.text := by
    rw [h.name]
    rfl
  exact ⟨hname ▸ h.root.name.isClosingName, h.gap⟩

theorem IsProper.items_isProper (h : d.IsProper inside) : ∀ i ∈ d.items, i.IsProper := by
  refine List.forall_mem_append.2 ⟨fun i hi => (h.front i hi).isProper, List.forall_mem_cons.2
    ⟨h.root, List.forall_mem_append.2 ⟨h.body, List.forall_mem_cons.2
      ⟨h.closing_isProper, fun i hi => (h.back i hi).isProper⟩⟩⟩⟩

/-- Around the root element there are no blocks. -/
theorem IsProper.block_notMem (h : d.IsProper inside) (hbody : ∀ b, .block b ∉ d.body) :
    ∀ b, .block b ∉ d.items := by
  intro b hb
  simp only [items, List.mem_append, List.mem_cons, reduceCtorEq, false_or] at hb
  rcases hb with hb | hb | hb
  · exact h.front _ hb
  · exact hbody b hb
  · exact h.back _ hb

/-- What neither opens nor closes an element can be left out. -/
theorem IsProper.filter (h : d.IsProper inside) {keep : Item → Bool}
    (hsilent : ∀ k, .mark k ∈ d.body → keep (.mark k) = false → k.IsSilent) :
    (d.filter keep).IsProper inside where
  front i hi := h.front i (List.mem_filter.1 hi).1
  root := h.root
  name := h.name
  isOpen := h.isOpen
  body i hi := h.body i (List.mem_filter.1 hi).1
  leads := by
    rw [Document.filter, marksOf_filter]
    exact h.leads.filter fun k hk => hsilent k (mem_marksOf.1 hk)
  gap := h.gap
  back i hi := h.back i (List.mem_filter.1 hi).1

/-- The inside of the opening tag of the root element begins with its name. -/
theorem IsProper.root_inner (h : d.IsProper inside) :
    d.root.inner = rootName ++ d.root.behindName := by
  rw [WrittenTag.inner, h.name]
  rfl

/-- The tags of the root element, and what may stand around it, are not taken for other tags. -/
theorem IsProper.read_eq_none (h : d.IsProper inside) {name : Text} (hname : Item.IsBlockName name)
    {admits : Text → Bool} {k : Mark}
    (hk : k = .opening d.root ∨ k = .closing rootName d.gap ∨
      (∃ inner, k = .aside inner ∧ IsAside inner)) :
    OpenTag.read name admits k.text = none := by
  rcases hk with rfl | rfl | ⟨inner, rfl, hinner⟩
  · rw [Mark.text, Mark.inner, h.root_inner]
    rcases hname with rfl | rfl <;> rfl
  · rcases hname with rfl | rfl <;> rfl
  · rcases head?_of_isAside hinner with hhead | hhead <;>
    · obtain ⟨w, rfl⟩ := List.head?_eq_some_iff.1 hhead
      rcases hname with rfl | rfl <;> rfl

/-! ## Styles and scripts -/

/-- The items are found as they are, in front of the root element, in it and behind it. -/
theorem IsProper.items_isClear (h : d.IsProper inside) (hclear : ∀ i ∈ d.body, i.IsClear) :
    ∀ i ∈ d.items, i.IsClear := by
  have houter : ∀ i : Item, i.IsOuter → i.IsClear := by
    intro i hi
    cases i with
    | plain s => trivial
    | mark k =>
      cases k with
      | aside inner => exact fun name hname => h.read_eq_none hname (.inr (.inr ⟨inner, rfl, hi⟩))
      | _ => exact absurd hi not_false
    | block b => exact absurd hi not_false
  refine List.forall_mem_append.2 ⟨fun i hi => houter i (h.front i hi), List.forall_mem_cons.2
    ⟨fun name hname => h.read_eq_none hname (.inl rfl), List.forall_mem_append.2 ⟨hclear,
      List.forall_mem_cons.2 ⟨fun name hname => h.read_eq_none hname (.inr (.inl rfl)),
        fun i hi => houter i (h.back i hi)⟩⟩⟩⟩

/-- Removing elements of a name takes their items out of the document. -/
theorem IsProper.removeElements_text (h : d.IsProper inside) (hclear : ∀ i ∈ d.body, i.IsClear)
    {name : Text} (hblock : Item.IsBlockName name) (hname : IsTagName name)
    (hfound : ∀ b, .block b ∈ d.items → Block.read name b.text = some (b, []) ∨ b.HoldsNo name) :
    removeElements name d.text = (d.filter fun i => !i.isElement name).text := by
  have hproper := h.items_isProper
  have hitems := h.items_isClear hclear
  have hkeep : ∀ k : Mark, k = .opening d.root ∨ k = .closing rootName d.gap →
      (!(Item.mark k).isElement name) = true := by
    intro k hk
    simp [Item.isElement, Item.isBlock, Item.isEmptyElement,
      h.read_eq_none hblock (hk.imp_right .inl)]
  rw [text, removeElements_items hname (fun s hs => hproper _ hs)
    (fun k hk => ⟨hproper _ hk, hitems _ hk name hblock⟩) hfound, text,
    items_filter (hkeep _ (.inl rfl)) (hkeep _ (.inr rfl))]

/-- The document without styles and scripts. -/
def bare (d : Document) : Document :=
  (d.filter fun i => !i.isElement styleName).filter fun i => !i.isElement scriptName

theorem mem_items_filter {keep : Item → Bool} {i : Item} (h : i ∈ (d.filter keep).items) :
    i ∈ d.items ∧ (keep i = true ∨ i = .mark (.opening d.root) ∨
      i = .mark (.closing rootName d.gap)) := by
  simp only [items, filter, List.mem_append, List.mem_cons, List.mem_filter] at h ⊢
  tauto

/-- **Without styles and scripts a document is the items that are left**, and it stays a
document. -/
theorem IsProper.bare (h : d.IsProper inside) (hclear : ∀ i ∈ d.body, i.IsClear) :
    removeScripts (removeStyles d.text) = d.bare.text ∧ d.bare.IsProper inside ∧
      ∀ b, .block b ∉ d.bare.body := by
  have hsilent : ∀ {e : Document}, e.IsProper inside → ∀ {name}, Item.IsBlockName name →
      (e.filter fun i => !i.isElement name).IsProper inside := by
    intro e he name hname
    refine he.filter fun k hk hdrop => isSilent_of_isElement hname (he.body _ hk) ?_
    simpa using hdrop
  have hstyles := h.removeElements_text hclear (.inl rfl) isTagName_styleName fun b hb =>
    (h.items_isClear hclear _ hb).imp_right And.right
  have hproper := hsilent h (.inl rfl : Item.IsBlockName styleName)
  -- What is left of blocks is scripts.
  have hscript : ∀ b, .block b ∈ (d.filter fun i => !i.isElement styleName).items →
      Block.read scriptName b.text = some (b, []) := by
    intro b hb
    obtain ⟨hmem, hkeep⟩ := mem_items_filter hb
    rcases h.items_isClear hclear _ hmem with hstyle | hscript
    · simp [Item.isElement, Item.isBlock, hstyle] at hkeep
    · exact hscript.1
  refine ⟨?_, hsilent hproper (.inr rfl), fun b hb => ?_⟩
  · rw [removeStyles, hstyles, removeScripts, hproper.removeElements_text
      (fun i hi => hclear i (List.mem_filter.1 hi).1) (.inr rfl) isTagName_scriptName
      fun b hb => .inl (hscript b hb)]
    rfl
  · obtain ⟨hmem, hkeep⟩ := List.mem_filter.1 hb
    have hread := hscript b (List.mem_append_right _ (List.mem_cons_of_mem _
      (List.mem_append_left _ hmem)))
    simp [Item.isElement, Item.isBlock, hread] at hkeep

/-! ## Versions -/

theorem spansOf_items (d : Document) :
    spansOf d.items = ((spansOf d.front).1, (spansOf d.front).2 ++
    (.opening d.root, (spansOf d.body).1) :: ((spansOf d.body).2 ++
      (.closing rootName d.gap, (spansOf d.back).1) :: (spansOf d.back).2)) := by
  rw [items, spansOf_append_mark, spansOf_append_mark]

/-- **A version of a document is a document.** -/
theorem IsProper.exists_of_isVersion (h : d.IsProper inside) {u : Text}
    (hu : IsVersion (spansOf d.items).1 (spansOf d.items).2 u) :
    ∃ e : Document, u = e.text ∧ e.IsProper inside ∧ ∀ b, .block b ∉ e.body := by
  rw [spansOf_items] at hu
  obtain ⟨lead, spans, rfl, hlead, hspans⟩ := hu
  obtain ⟨before, inner, rfl, hbefore, hinner⟩ := exists_of_forall₂_append hspans
  obtain ⟨⟨_, within⟩, inner, ⟨hroot, hproper, hwithin⟩, hcontent, rfl⟩ :=
    List.forall₂_cons_left_iff.1 hinner
  obtain ⟨body, outer, rfl, hbody, houter⟩ := exists_of_forall₂_append hcontent
  obtain ⟨⟨_, behind⟩, after, ⟨hclosing, hgap, hbehind⟩, hafter, rfl⟩ :=
    List.forall₂_cons_left_iff.1 houter
  cases hroot with
  | @opening _ root hlike =>
  cases hclosing with
  | closing _ _ gap =>
  have hfront := isOuter_of_versions (isSurrounding_spansOf h.front) hlead hbefore
  have hback := isOuter_of_versions (isSurrounding_spansOf h.back) hbehind hafter
  have hitems : ∀ i ∈ itemsOf within body, i.IsProper ∧ ∀ b, i ≠ .block b := by
    intro i hi
    rcases mem_itemsOf hi with rfl | ⟨x', hx', hi⟩
    · exact ⟨hwithin.isData, nofun⟩
    · obtain ⟨x, -, hversion⟩ := exists_of_forall₂_of_mem hbody hx'
      rcases hi with rfl | rfl
      · exact ⟨hversion.isProper, nofun⟩
      · exact ⟨hversion.text.isData, nofun⟩
  refine ⟨⟨itemsOf lead before, root, itemsOf within body, gap, itemsOf behind after⟩, ?_,
    ⟨hfront, hproper, hlike.name_eq.trans h.name, hlike.isEmpty_eq.trans h.isOpen,
      fun i hi => (hitems i hi).1, ?_, hgap.2, hback⟩, fun b hb => (hitems _ hb).2 b rfl⟩
  · simp [text, items, itemsText_append, itemsText_cons, itemsText_itemsOf, Item.text, spansText]
  · rw [marksOf_itemsOf]
    refine h.leads.of_isLike ?_
    rw [← marks_spansOf, List.forall₂_map_left_iff, List.forall₂_map_right_iff]
    exact hbody.imp fun x x' hx => ⟨hx.isLike, hx.isProper⟩

end Document

end SvgAssets.Markup
