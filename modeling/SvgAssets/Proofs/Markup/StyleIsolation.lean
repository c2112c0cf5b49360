/-
# SvgAssets.Proofs.Markup.StyleIsolation -- styles move, and nothing is lost

The contents of style blocks are taken out by one pass over a document, and the blocks are removed
by another. Both passes find the same blocks: in a document that is written as blocks with texts
between them (`BlockText`), each block is read as it is written (`Block.IsPlain.read_text_append`),
and nothing else is read if the texts put together hold no start of a block
(`BlockText.IsProper.scanFrom_text`). So the contents come out in order, each with the wrappers of
its CDATA sections taken off, and what is left of the document is what stands outside of the blocks
(`isolate_styles`). Script blocks are removed in the same way.

What it means that the wrappers are taken off is said by a relation of its own (`Unwraps`): sections
are found from left to right, each from its opening up to the first closing behind it.
-/
import SvgAssets.Proofs.Markup.ElementRemoval
import SvgAssets.Proofs.Text.Replacing

namespace SvgAssets

namespace Pattern

variable {α : Type} {p : Pattern α}

/-- The first token stands behind a stretch at which none can be read. -/
theorem firstFrom_append_of_silent {prev : Option Char} {w t rest : Text} {a : α}
    (hsilent : p.Silent prev w t) (hread : ∀ prev, p.read prev t = some (a, rest)) :
    p.firstFrom prev (w ++ t) = some (w, a, rest) := by
  induction w generalizing prev with
  | nil =>
    have hlt := p.length_lt (hread prev)
    cases t with
    | nil => simp at hlt
    | cons c t => rw [List.nil_append, firstFrom, hread]
  | cons c w ih =>
    rw [Silent, List.cons_append] at hsilent
    rw [List.cons_append, firstFrom, hsilent.1, ih hsilent.2]
    rfl

end Pattern

namespace Markup

open Text

/-! ## CDATA sections -/

/-- What a CDATA section begins with. -/
abbrev cdataOpening : Text := ['<', '!', '[', 'C', 'D', 'A', 'T', 'A', '[']

/-- What a CDATA section ends with. -/
abbrev cdataClosing : Text := [']', ']', '>']

/-- The second text is the first without the wrappers of its CDATA sections. A section is opened
where an opening first stands, and closed where a closing first stands behind it. -/
inductive Unwraps : Text → Text → Prop
  | bare {s : Text} : ¬ cdataOpening <:+: s → Unwraps s s
  | unclosed {v x : Text} : ¬ cdataOpening <:+: v → ¬ cdataClosing <:+: x →
      Unwraps (v ++ (cdataOpening ++ x)) (v ++ (cdataOpening ++ x))
  | wrapped {v x s t : Text} : ¬ cdataOpening <:+: v → ¬ cdataClosing <:+: x → Unwraps s t →
      Unwraps (v ++ (cdataOpening ++ (x ++ (cdataClosing ++ s)))) (v ++ (x ++ t))

/-- Every text can be unwrapped. -/
theorem exists_unwraps (s : Text) : ∃ t, Unwraps s t := by
  induction hn : s.length using Nat.strongRecOn generalizing s with
  | ind n ih =>
    cases hopen : breakAt? cdataOpening s with
    | none => exact ⟨s, .bare fun hmem => breakAt?_ne_none hmem hopen⟩
    | some found =>
      obtain ⟨v, r⟩ := found
      have hv := not_isInfix_of_breakAt? (by decide) hopen
      have hs := breakAt?_eq_some hopen
      rw [List.append_assoc] at hs
      cases hclose : breakAt? cdataClosing r with
      | none => exact ⟨s, hs ▸ .unclosed hv fun hmem => breakAt?_ne_none hmem hclose⟩
      | some found =>
        obtain ⟨x, rest⟩ := found
        have hx := not_isInfix_of_breakAt? (by decide) hclose
        have hr := breakAt?_eq_some hclose
        rw [List.append_assoc] at hr
        have hlength : rest.length < n := by
          rw [← hn, hs, hr]
          simp only [List.length_append, List.length_cons]
          omega
        obtain ⟨t, ht⟩ := ih rest.length hlength rest rfl
        exact ⟨v ++ (x ++ t), by rw [hs, hr]; exact .wrapped hv hx ht⟩

theorem exists_of_cdataSection_read {prev : Option Char} {s x rest : Text}
    (h : cdataSection.read prev s = some (x, rest)) :
    s = cdataOpening ++ (x ++ (cdataClosing ++ rest)) := by
  have hs : s = cdataOpening ++ x ++ cdataClosing ++ rest := cdataSection.exact h
  simpa using hs

theorem cdataSection_read {x : Text} (hx : ¬ cdataClosing <:+: x) (prev : Option Char) (s : Text) :
    cdataSection.read prev (cdataOpening ++ (x ++ (cdataClosing ++ s))) = some (x, s) := by
  have hopening : after? cdataOpening (cdataOpening ++ (x ++ (cdataClosing ++ s))) =
      some (x ++ (cdataClosing ++ s)) := after?_eq_some_iff.2 rfl
  have hclosing : breakAt? cdataClosing (x ++ (cdataClosing ++ s)) = some (x, s) :=
    breakAt?_append_self (m := [']', ']']) (by decide) hx s
  show (after? cdataOpening (cdataOpening ++ (x ++ (cdataClosing ++ s)))).bind
    (breakAt? cdataClosing) = some (x, s)
  rw [hopening, Option.bind_some, hclosing]

/-- No section is read in front of where one may be opened. -/
theorem silent_of_not_opened {v t : Text} (hv : ¬ cdataOpening <:+: v)
    (ht : ∀ c ∈ t.head?, c = '<') (prev : Option Char) : cdataSection.Silent prev v t := by
  refine cdataSection.silent_of_forall_suffix (fun u hne hu prev => ?_) prev
  rw [Option.eq_none_iff_forall_ne_some]
  rintro ⟨x, rest⟩ hread
  have hprefix : cdataOpening <+: u ++ t := ⟨_, (exists_of_cdataSection_read hread).symm⟩
  exact hv ((prefix_of_prefix_append_head (by decide) hne ht hprefix).isInfix.trans hu.isInfix)

/-- No section is read where none is closed. -/
theorem silent_of_not_closed {x : Text} (hx : ¬ cdataClosing <:+: x) (prev : Option Char) :
    cdataSection.Silent prev (cdataOpening ++ x) [] := by
  refine cdataSection.silent_of_forall_suffix (fun u _ hu prev => ?_) prev
  rw [List.append_nil, Option.eq_none_iff_forall_ne_some]
  rintro ⟨y, rest⟩ hread
  have hmem : cdataClosing <:+: u := by
    rw [exists_of_cdataSection_read hread]
    exact ⟨cdataOpening ++ y, rest, by simp⟩
  exact hx (infix_of_infix_append (by decide) (hmem.trans hu.isInfix))

/-- Replacing sections by their contents unwraps. -/
theorem Unwraps.replaceFrom_eq {s t : Text} (h : Unwraps s t) (prev : Option Char) :
    cdataSection.replaceFrom id prev s = t := by
  have hcopied : ∀ {prev : Option Char} {s : Text}, cdataSection.Silent prev s [] →
      cdataSection.replaceFrom id prev s = s := by
    intro prev s hsilent
    have hcopy := Pattern.replaceFrom_append_of_silent (f := id) hsilent
    rwa [cdataSection.replaceFrom_nil, List.append_nil] at hcopy
  induction h generalizing prev with
  | bare hbare => exact hcopied (silent_of_not_opened hbare (by simp) prev)
  | unclosed hv hx =>
    refine hcopied (cdataSection.silent_append.2 ⟨?_, silent_of_not_closed hx _⟩)
    exact silent_of_not_opened hv (by simp) prev
  | @wrapped v x s t hv hx _ ih =>
    have hsilent := silent_of_not_opened hv
      (t := cdataOpening ++ (x ++ (cdataClosing ++ s))) (by simp) prev
    rw [Pattern.replaceFrom_append_of_silent hsilent,
      cdataSection.replaceFrom_of_read (cdataSection_read hx _ s), ih]
    rfl

/-- **Replacing CDATA sections by their contents takes off the wrappers**, and in one way only. -/
theorem unwraps_iff {s t : Text} : Unwraps s t ↔ cdataSection.replace id s = t := by
  constructor
  · exact fun h => h.replaceFrom_eq none
  · rintro rfl
    obtain ⟨t, ht⟩ := exists_unwraps s
    rwa [show cdataSection.replace id s = t from ht.replaceFrom_eq none]

/-! ## Blocks -/

/-- The name stands nowhere behind `lead`, in none of its forms. -/
def HoldsNo (lead name s : Text) : Prop := ∀ form, IsForm name form → ¬ lead ++ form <:+: s

/-- No element of the name begins in the text. -/
abbrev HoldsNoStart (name s : Text) : Prop := HoldsNo ['<'] name s

/-- No closing tag of the name begins in the text. -/
abbrev HoldsNoEnd (name s : Text) : Prop := HoldsNo ['<', '/'] name s

theorem HoldsNo.of_isInfix {lead name s t : Text} (h : HoldsNo lead name t) (hs : s <:+: t) :
    HoldsNo lead name s :=
  fun form hform hmem => h form hform (hmem.trans hs)

/-- Whether a name stands in a text can be found out place by place. -/
theorem holdsNo_of_tails {lead name s : Text}
    (h : ∀ t ∈ s.tails, (after? lead t).bind (keyword? name) = none) : HoldsNo lead name s := by
  rintro form hform ⟨u, v, hs⟩
  have hsuffix : lead ++ (form ++ v) <:+ s := ⟨u, by simp [← hs]⟩
  have hnone := h _ ((List.mem_tails _ _).2 hsuffix)
  rw [after?_eq_some_iff.2 rfl, Option.bind_some, keyword?_eq_some_iff.2 ⟨hform, rfl⟩] at hnone
  cases hnone

/-- A block as it is written: its opening tag has white space behind the name, if anything, and no
slash at its end, and its content holds no closing tag. -/
structure Block.IsPlain (name : Text) (b : Block) : Prop where
  opening : b.opening.IsProper name
  admits : Attributes.admitsContent b.opening.attributes = true
  content : HoldsNoEnd name b.content
  closing : b.closing.IsProper name

section

variable {name : Text} (hname : IsTagName name)

include hname

/-- What stands nowhere in a text does not begin there in front of a bracket either. -/
theorem HoldsNo.not_isPrefix {lead v w t form : Text} (h : HoldsNo ('<' :: lead) name w)
    (hlead : '<' ∉ lead) (hne : v ≠ []) (hv : v <:+ w) (ht : ∀ c ∈ t.head?, c = '<')
    (hform : IsForm name form) : ¬ '<' :: (lead ++ form) <+: v ++ t := by
  intro hprefix
  have hbracket : '<' ∉ lead ++ form := by
    rw [List.mem_append, not_or]
    exact ⟨hlead, fun hmem => (hname.form_chars hform '<' hmem).1 (by decide)⟩
  have hwithin := prefix_of_prefix_append_head hbracket hne ht hprefix
  exact h form hform (hwithin.isInfix.trans hv.isInfix)

/-- Where no element begins, no opening tag is read. -/
theorem HoldsNoStart.read_eq_none {v w t : Text} (h : HoldsNoStart name w) (hne : v ≠ [])
    (hv : v <:+ w) (ht : ∀ c ∈ t.head?, c = '<') (admits : Text → Bool) :
    OpenTag.read name admits (v ++ t) = none := by
  rw [Option.eq_none_iff_forall_ne_some]
  rintro ⟨tag, rest⟩ hread
  obtain ⟨htag, -, hs⟩ := OpenTag.read_eq_some_iff.1 hread
  refine h.not_isPrefix hname (by decide) hne hv ht htag.isForm ?_
  rw [hs]
  exact ⟨tag.attributes ++ '>' :: rest, by simp [OpenTag.text]⟩

/-- Where no element begins, no block is read. -/
theorem HoldsNoStart.silent_block {w t : Text} (h : HoldsNoStart name w)
    (ht : ∀ c ∈ t.head?, c = '<') (prev : Option Char) :
    (Block.pattern name).Silent prev w t := by
  refine (Block.pattern name).silent_of_forall_suffix (fun v hne hv prev => ?_) prev
  show Block.read name (v ++ t) = none
  rw [Block.read, h.read_eq_none hname hne hv ht]

/-- Where no closing tag begins, none is read. -/
theorem HoldsNoEnd.silent {w t : Text} (h : HoldsNoEnd name w) (ht : ∀ c ∈ t.head?, c = '<')
    (prev : Option Char) : (CloseTag.pattern name).Silent prev w t := by
  refine (CloseTag.pattern name).silent_of_forall_suffix (fun v hne hv prev => ?_) prev
  rw [Option.eq_none_iff_forall_ne_some]
  rintro ⟨tag, rest⟩ hread
  obtain ⟨htag, hs⟩ := CloseTag.read_eq_some_iff.1 hread
  refine h.not_isPrefix hname (by decide) hne hv ht htag.isForm ?_
  rw [hs]
  exact ⟨tag.gap ++ '>' :: rest, by simp [CloseTag.text]⟩

/-- A block is read as it is written. -/
theorem Block.IsPlain.read_text_append {b : Block} (h : b.IsPlain name) (s : Text) :
    Block.read name (b.text ++ s) = some (b, s) := by
  have htext : b.text ++ s = b.opening.text ++ (b.content ++ (b.closing.text ++ s)) := by
    simp [Block.text]
  have hopening : OpenTag.read name Attributes.admitsContent (b.text ++ s) =
      some (b.opening, b.content ++ (b.closing.text ++ s)) :=
    OpenTag.read_eq_some_iff.2 ⟨h.opening, h.admits, htext⟩
  have hclosing : (CloseTag.pattern name).firstFrom none (b.content ++ (b.closing.text ++ s)) =
      some (b.content, b.closing, s) := by
    refine Pattern.firstFrom_append_of_silent (h.content.silent hname ?_ none) fun _ => ?_
    · simp [CloseTag.text]
    · exact CloseTag.read_eq_some_iff.2 ⟨h.closing, rfl⟩
  rw [Block.read, hopening]
  simp only [hclosing, Option.map_some]

end

/-! ## Texts with blocks -/

/-- A text as it is written with blocks in it: what stands in front of the first block, and each
block with what stands behind it up to the next. -/
structure BlockText where
  lead : Text
  blocks : List (Block × Text)

namespace BlockText

/-- The whole text. -/
def text (m : BlockText) : Text := m.lead ++ m.blocks.flatMap fun x => x.1.text ++ x.2

/-- What stands outside of the blocks. -/
def outside (m : BlockText) : Text := m.lead ++ m.blocks.flatMap (·.2)

/-- The contents of the blocks, in order. -/
def contents (m : BlockText) : List Text := m.blocks.map (·.1.content)

/-- Each block is written as one of the name, and outside of the blocks none begins, also when they
are taken out. -/
structure IsProper (name : Text) (m : BlockText) : Prop where
  block : ∀ x ∈ m.blocks, x.1.IsPlain name
  outside : HoldsNoStart name m.outside

/-- The pieces that a scan finds. -/
def pieces (m : BlockText) : List (Piece Block) :=
  m.lead.map .plain ++ m.blocks.flatMap fun x => .token x.1 :: x.2.map .plain

variable {name : Text} (hname : IsTagName name) {m : BlockText}

include hname

/-- **The blocks are found as they are written**, and nothing else is. -/
theorem IsProper.scanFrom_text (h : m.IsProper name) (prev : Option Char) :
    (Block.pattern name).scanFrom prev m.text = m.pieces := by
  obtain ⟨lead, blocks⟩ := m
  obtain ⟨hblocks, houtside⟩ := h
  induction blocks generalizing lead prev with
  | nil =>
    have hlead : HoldsNoStart name lead := houtside.of_isInfix (List.prefix_append lead _).isInfix
    have hscan := (Block.pattern name).scanFrom_append_of_silent
      (hlead.silent_block hname (t := []) (by simp) prev)
    rwa [Pattern.scanFrom] at hscan
  | cons x blocks ih =>
    obtain ⟨b, behind⟩ := x
    obtain ⟨hb, hblocks⟩ := List.forall_mem_cons.1 hblocks
    have hlead : HoldsNoStart name lead := houtside.of_isInfix (List.prefix_append lead _).isInfix
    have hrest : HoldsNoStart name (behind ++ blocks.flatMap (·.2)) :=
      houtside.of_isInfix (List.suffix_append lead _).isInfix
    have htext :
        text ⟨lead, (b, behind) :: blocks⟩ = lead ++ (b.text ++ text ⟨behind, blocks⟩) := by
      simp [text]
    have hsilent := hlead.silent_block hname (t := b.text ++ text ⟨behind, blocks⟩)
      (by simp [Block.text, OpenTag.text]) prev
    have hread : ∀ prev, (Block.pattern name).read prev (b.text ++ text ⟨behind, blocks⟩) =
        some (b, text ⟨behind, blocks⟩) := fun _ => hb.read_text_append hname _
    rw [htext, (Block.pattern name).scanFrom_append_of_silent hsilent,
      (Block.pattern name).scanFrom_of_read (hread _), ih _ behind hblocks hrest]
    rfl

theorem IsProper.tokens_text (h : m.IsProper name) :
    (Block.pattern name).tokens m.text = m.blocks.map (·.1) := by
  rw [Pattern.tokens, Pattern.scan, h.scanFrom_text hname, pieces, List.filterMap_append,
    List.filterMap_map, List.filterMap_flatMap, List.map_eq_flatMap]
  simp

theorem IsProper.erase_text (h : m.IsProper name) :
    (Block.pattern name).erase m.text = m.outside := by
  rw [Pattern.erase, Pattern.replace, Pattern.scan, h.scanFrom_text hname, pieces,
    List.flatMap_append, List.flatMap_map, List.flatMap_assoc, BlockText.outside]
  simp [List.flatMap_map]

/-- Elements are removed, and what stands outside of them is left. -/
theorem IsProper.removeElements_text (h : m.IsProper name) :
    removeElements name m.text = m.outside := by
  have hsilent : (Block.emptyElement name).Silent none m.outside [] := by
    refine (Block.emptyElement name).silent_of_forall_suffix (fun v hne hv _ => ?_) none
    exact h.outside.read_eq_none hname hne hv (by simp) _
  rw [removeElements, h.erase_text hname]
  exact (Block.emptyElement name).replace_of_silent hsilent _

end BlockText

/-! ## Styles and scripts -/

/-- Texts are unwrapped one by one. -/
theorem forall₂_unwraps_iff {xs ys : List Text} :
    List.Forall₂ Unwraps xs ys ↔ xs.map (cdataSection.replace id) = ys := by
  have hrel : Unwraps = fun s t => cdataSection.replace id s = t := by
    funext s t
    exact propext unwraps_iff
  rw [hrel, ← List.forall₂_map_left_iff (R := Eq), List.forall₂_eq_eq_eq]

/-- **Style isolation moves, and loses nothing.** Of a text that is written with style blocks in it,
the inline styles are the contents of the blocks in order, each without the wrappers of its CDATA
sections, and what is left without the styles is exactly what stands outside of the blocks. Script
blocks are removed in the same way. -/
theorem isolate_styles :
    (∀ m : BlockText, m.IsProper styleName →
      (∀ t, inlineStyles m.text = t ↔
        ∃ contents, List.Forall₂ Unwraps m.contents contents ∧ contents.flatten = t) ∧
      removeStyles m.text = m.outside) ∧
    ∀ m : BlockText, m.IsProper scriptName → removeScripts m.text = m.outside := by
  refine ⟨fun m hm => ⟨fun t => ?_, hm.removeElements_text isTagName_styleName⟩,
    fun m hm => hm.removeElements_text isTagName_scriptName⟩
  have hstyles : inlineStyles m.text = (m.contents.map (cdataSection.replace id)).flatten := by
    rw [inlineStyles, hm.tokens_text isTagName_styleName, List.flatMap_map, BlockText.contents,
      List.map_map, List.flatMap_def]
    rfl
  simp only [forall₂_unwraps_iff, hstyles, exists_eq_left']

/-- A style sheet in two blocks, with attributes, capitals, a CDATA section that holds a tag, and a
closing tag that breaks off. -/
def twoSheets : BlockText :=
  ⟨"<svg><".toList,
    [(⟨⟨"style".toList, " media='a/b'".toList⟩, "a<![CDATA[<style>]]>".toList,
        ⟨"STYLE".toList, [' ']⟩⟩, "/>style<g/>".toList),
      (⟨⟨"Style".toList, []⟩, "b</sty<![CDATA[".toList, ⟨"style".toList, []⟩⟩, "</svg>".toList)]⟩

/-- A script with text around it that looks like parts of one. -/
def oneScript : BlockText :=
  ⟨"<scrip</script>".toList,
    [(⟨⟨"SCRIPT".toList, "\nasync".toList⟩, "'<script>'".toList, ⟨"script".toList, ['\n']⟩⟩,
      "t>".toList)]⟩

/-- Whether a text is proper can be found out block by block and place by place. -/
theorem BlockText.isProper_of_checks {name : Text} {m : BlockText}
    (hparts : ∀ x ∈ m.blocks,
      (keyword? name x.1.opening.name = some (x.1.opening.name, []) ∧
        '>' ∉ x.1.opening.attributes ∧ Attributes.admitsContent x.1.opening.attributes = true) ∧
      (∀ t ∈ x.1.content.tails, (after? ['<', '/'] t).bind (keyword? name) = none) ∧
      keyword? name x.1.closing.name = some (x.1.closing.name, []) ∧
      x.1.closing.gap.all isBlank = true)
    (houtside : ∀ t ∈ m.outside.tails, (after? ['<'] t).bind (keyword? name) = none) :
    m.IsProper name where
  block x hx := by
    obtain ⟨⟨hname, hattributes, hadmits⟩, hcontent, hclosing, hgap⟩ := hparts x hx
    exact ⟨⟨(keyword?_eq_some_iff.1 hname).1, hattributes⟩, hadmits, holdsNo_of_tails hcontent,
      ⟨(keyword?_eq_some_iff.1 hclosing).1, List.all_eq_true.1 hgap⟩⟩
  outside := holdsNo_of_tails houtside

theorem isolate_styles_twoSheets :
    twoSheets.IsProper styleName ∧
      inlineStyles twoSheets.text = "a<style>b</sty<![CDATA[".toList ∧
      removeStyles twoSheets.text = "<svg></>style<g/></svg>".toList ∧
      oneScript.IsProper scriptName ∧
      removeScripts oneScript.text = "<scrip</script>t>".toList := by
  have hsheets : twoSheets.IsProper styleName :=
    BlockText.isProper_of_checks (by decide +kernel) (by decide +kernel)
  have hscript : oneScript.IsProper scriptName :=
    BlockText.isProper_of_checks (by decide +kernel) (by decide +kernel)
  obtain ⟨hstyles, houtside⟩ := isolate_styles.1 twoSheets hsheets
  have hsection : Unwraps "a<![CDATA[<style>]]>".toList "a<style>".toList :=
    .wrapped (v := ['a']) (x := "<style>".toList) (by decide +kernel) (by decide +kernel)
      (.bare (by decide +kernel))
  have hunclosed : Unwraps "b</sty<![CDATA[".toList "b</sty<![CDATA[".toList :=
    .unclosed (v := "b</sty".toList) (x := []) (by decide +kernel) (by decide +kernel)
  exact ⟨hsheets, (hstyles _).2 ⟨_, .cons hsection (.cons hunclosed .nil), rfl⟩, houtside, hscript,
    isolate_styles.2 oneScript hscript⟩

end Markup

end SvgAssets
