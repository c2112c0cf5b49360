/-
# SvgAssets.Proofs.Pipeline.WellFormedness -- whether the markup of a record is well formed

The stages take styles and scripts out of a document, reduce declarations, rename identifiers,
compact what is left and take off the root element. None of the passes knows comments, sections or
quotes. In a document whose angle brackets stand around tags and asides alone they all respect what
is read as markup: its parts are filtered, replaced by versions of themselves and compacted. So
inside the opening tag of the source the markup of the record is well formed again
(`wellFormed_of_result`). Where brackets stand elsewhere it need not be
(`comment_opened_in_record`).
-/
import SvgAssets.Pipeline.Source
import SvgAssets.Proofs.Markup.DocumentCompaction
import SvgAssets.Proofs.Markup.DocumentRenaming
import SvgAssets.Proofs.Pipeline.Origin

namespace SvgAssets

namespace Markup

open Text Xml

/-! ## Content inside a root element -/

/-- A document that is not cut short is well formed if it is read to the end and has the name. -/
theorem malformationOf_eq_none_iff {d : Decoded} (h : d.isCut = false) :
    malformationOf d = none ↔ Xml.rootName d.text = .ok Markup.rootName := by
  unfold malformationOf
  cases hname : Xml.rootName d.text with
  | error f => simp [h]
  | ok name => simp [h]

/-- A document is well formed if its content is, and nothing but asides follow. -/
theorem malformation?_eq_none_iff {root : WrittenTag} (hroot : root.IsProper)
    (hname : root.name = ⟨none, Markup.rootName⟩) (hopen : root.isEmpty = false)
    {inside : Bindings} (hbinds : root.Binds .initial inside) (content : Text) :
    malformation? ('<' :: (root.inner ++ '>' :: content)) = none ↔
      ∃ rest, readContent .empty 0 [] .document .initial [⟨Markup.rootName, inside⟩] content =
        .ok rest ∧ checkEpilog (prologTokens rest) = .ok () := by
  obtain ⟨w, hw⟩ : ∃ w, root.inner = 's' :: w := ⟨_, by rw [WrittenTag.inner, hname]; rfl⟩
  have hprolog : readProlog ('<' :: (root.inner ++ '>' :: content)) =
      .ok (.empty, '<' :: (root.inner ++ '>' :: content)) := by
    rw [readProlog, prologTokens, hw]
    rfl
  have hread : readRoot .empty ('<' :: (root.inner ++ '>' :: content)) =
      (readContent .empty 0 [] .document .initial [⟨Markup.rootName, inside⟩] content).bind
        fun rest => (checkEpilog (prologTokens rest)).bind fun _ => .ok Markup.rootName := by
    rw [readRoot_eq hroot hopen hbinds Doctype.isBare_empty content, hname]
    rfl
  have hrootName : Xml.rootName ('<' :: (root.inner ++ '>' :: content)) =
      readRoot .empty ('<' :: (root.inner ++ '>' :: content)) := by
    have hmark : withoutMark ('<' :: (root.inner ++ '>' :: content)) =
        '<' :: (root.inner ++ '>' :: content) := rfl
    rw [Xml.rootName, hmark, hprolog]
    rfl
  rw [malformation?, decode_eq_self (by simp) (by simp [hw]), malformationOf_eq_none_iff rfl,
    hrootName, hread]
  cases hcontent : readContent .empty 0 [] .document .initial [⟨Markup.rootName, inside⟩]
    content with
  | error f => simp [Except.bind]
  | ok rest =>
    cases hepilog : checkEpilog (prologTokens rest) <;> simp [Except.bind, hepilog]

/-- **Content inside a root element is well formed.** -/
theorem IsContent.malformation?_eq_none {inside : Bindings} {lead : Text} {spans : Spans}
    (h : IsContent inside lead spans) {root : WrittenTag} (hroot : root.IsProper)
    (hname : root.name = ⟨none, Markup.rootName⟩) (hopen : root.isEmpty = false)
    (hbinds : root.Binds .initial inside) :
    malformation? ('<' :: (root.inner ++ '>' :: (lead ++ spansText spans ++
      CloseTag.text ⟨Markup.rootName, []⟩))) = none := by
  have hclosing : IsClosingName Markup.rootName := by
    have htext := hroot.name.isClosingName
    rwa [hname] at htext
  rw [malformation?_eq_none_iff hroot hname hopen hbinds, List.append_assoc]
  refine ⟨[], Leads.readContent_eq_ok hclosing h.isData h.areProper h.not_aside h.leads
    Doctype.isBare_empty 0 [], ?_⟩
  rw [prologTokens, checkEpilog]

/-- Nothing that the stages exchange in a document is read as markup: prefixes are bound to settled
values, and no declaration, identifier or part of a new name holds a quote or an angle bracket. -/
structure Document.IsGuarded (r : Renaming) (d : Document) : Prop where
  settled : ∀ k, .mark k ∈ d.items → k.IsSettled r.ids
  declarations : ∀ x ∈ Template.declarations (removeScripts (removeStyles d.text)),
    ∀ c ∈ x.text, c ∉ delimiters
  harmless : r.IsHarmless

theorem Document.IsProper.exists_finished {d : Document} {inside : Bindings} (h : d.IsProper inside)
    (hclear : ∀ i ∈ d.body, i.IsClear) {r : Renaming} (hguarded : d.IsGuarded r) :
    ∃ lead spans, unwrap (compact (r.apply (Template.normalize (removeScripts
      (removeStyles d.text))))) = lead ++ spansText spans ∧ IsContent inside lead spans := by
  obtain ⟨htext, hbare, hblocks⟩ := h.bare hclear
  have hdeclarations := hguarded.declarations
  rw [htext] at hdeclarations ⊢
  obtain ⟨hlead, hspans⟩ := areProper_spansOf hbare.items_isProper
  have hsettled : ∀ y ∈ (spansOf d.bare.items).2, y.1.IsSettled r.ids := by
    intro y hy
    have hmark : y.1 ∈ marksOf d.bare.items := by
      rw [← marks_spansOf]
      exact List.mem_map_of_mem hy
    rw [mem_marksOf] at hmark
    exact hguarded.settled y.1 (mem_items_filter (mem_items_filter hmark).1).1
  have hversion := isVersion_refl hlead hspans
  rw [text_spansOf (hbare.block_notMem hblocks)] at hversion
  obtain ⟨e, heq, he, hbody⟩ := hbare.exists_of_isVersion
    (isVersion_apply hguarded.harmless hsettled
      (isVersion_normalize hsettled hdeclarations hversion))
  rw [heq]
  exact he.exists_unwrap hbody

end Markup

namespace Pipeline

open Markup Text Xml

-- What is said of the characters in a list is decided by going through the list.
attribute [local instance (2000)] List.decidableBAll

/-- **Well-formed in, well-formed out.** Outside of styles and scripts let angle brackets stand
around tags and asides alone, let tags be nested and attributes be read as in well-formed markup,
and let nothing be read as markup that the stages exchange. Then the markup of a record, with the
opening tag of the source in front of it and its closing tag behind, is well formed. -/
theorem wellFormed_of_result {config : Config} {source : Source} {d : Document}
    (hsource : source.svg = d.text) {inside : Bindings} (hd : d.IsProper inside)
    (hbinds : d.root.Binds .initial inside) (hclear : ∀ i ∈ d.body, i.IsClear)
    (hguarded : d.IsGuarded (renamingOf config source))
    {a : Attempt StageFailure Notice Progress} (hprocess : builtIn.process config source = .ok a)
    {r : AssetRecord} (hresult : a.state.result? = some r) :
    malformation? ((Mark.opening d.root).text ++ (r.svg ++ "</svg>".toList)) = none := by
  obtain ⟨g, css, hmade⟩ := exists_isMadeFrom hprocess hresult
  obtain ⟨lead, spans, hsvg, hcontent⟩ := hd.exists_finished hclear hguarded
  have hrecord : r.svg = lead ++ spansText spans := by
    rw [hmade.record, ← hsvg, ← hsource]
    rfl
  have hnone := hcontent.malformation?_eq_none hd.root hd.name hd.isOpen hbinds
  rw [hrecord]
  have htext : (Mark.opening d.root).text ++ (lead ++ spansText spans ++ "</svg>".toList) =
      '<' :: (d.root.inner ++ '>' ::
        (lead ++ spansText spans ++ CloseTag.text ⟨Markup.rootName, []⟩)) := by
    simp [Mark.text, Mark.inner, CloseTag.text, Markup.rootName]
  rw [htext, hnone]

/-! ## An image of this form -/

/-- An attribute with one space in front of it. -/
def plainAttribute (name value : String) : WrittenAttribute :=
  ⟨[' '], ⟨none, name.toList⟩, [], [], '"', value.toList⟩

/-- A tag without prefixes. -/
def plainTag (name : String) (attributes : List (String × String)) (isEmpty : Bool) : WrittenTag :=
  ⟨⟨none, name.toList⟩, attributes.map fun (name, value) => plainAttribute name value, [], isEmpty⟩

theorem isProper_plainAttribute {name value : String} (hname : IsName name.toList)
    (hvalue : ∀ c ∈ value.toList, isDataChar c = true ∧ c ≠ '"') :
    (plainAttribute name value).IsProper where
  lead_ne_nil := List.cons_ne_nil ' ' []
  lead_space := List.forall_mem_singleton.2 rfl
  name := ⟨nofun, hname⟩
  gapBefore_space := nofun
  gapAfter_space := nofun
  quote_mem := by simp [plainAttribute]
  value_chars := fun c hc => by
    obtain ⟨hdata, hquote⟩ := hvalue c hc
    simp only [isDataChar, Bool.and_eq_true, bne_iff_ne] at hdata
    exact ⟨hquote, hdata.1.1.2, hdata.1.1.1⟩
  value_isData := .of_forall fun c hc => (hvalue c hc).1

/-- Where the values are of plain characters, the tag can be read and binds no prefix. -/
theorem isProper_plainTag {name : String} {attributes : List (String × String)} {isEmpty : Bool}
    (hname : IsName name.toList)
    (hattributes : ∀ x ∈ attributes, IsName x.1.toList ∧ x.1.toList ≠ xmlnsPrefix ∧
      ∀ c ∈ x.2.toList, isDataChar c = true ∧ c ≠ '"')
    (hnodup : ((plainTag name attributes isEmpty).attributes.map (·.name)).Nodup) :
    (plainTag name attributes isEmpty).IsProper ∧
      (plainTag name attributes isEmpty).Binds .initial .initial ∧
      ∀ ids, (plainTag name attributes isEmpty).IsSettled ids := by
  have hproper : (plainTag name attributes isEmpty).IsProper := by
    refine ⟨⟨nofun, hname⟩, List.forall_mem_map.2 fun x hx => ?_, nofun⟩
    exact isProper_plainAttribute (hattributes x hx).1 (hattributes x hx).2.2
  have hplain : ∀ w ∈ (plainTag name attributes isEmpty).attributes,
      w.name.qualifier = none ∧ w.name.localName ≠ xmlnsPrefix :=
    List.forall_mem_map.2 fun x hx => ⟨rfl, (hattributes x hx).2.1⟩
  refine ⟨hproper, hproper.binds_self rfl hplain hnodup _, fun ids w hw hbound => ?_⟩
  obtain ⟨hqualifier, hlocal⟩ := hplain w hw
  simp [boundPrefix?, hqualifier, hlocal] at hbound

/-- An image with a comment, a style, a script, an identifier that is referred to, a reference to an
entity, and a variable. -/
def plainDocument : Document where
  front := [.mark (.aside "?xml version=\"1.0\"?".toList)]
  root := plainTag "svg" [("width", "1"), ("height", "1")] false
  body :=
    [.mark (.aside "!-- a --".toList),
      .block ⟨⟨styleName, []⟩, ".b\x7bfill:red\x7d".toList, ⟨styleName, []⟩⟩,
      .block ⟨⟨scriptName, []⟩, "f(1)".toList, ⟨scriptName, []⟩⟩,
      .mark (.opening (plainTag "g" [("id", "a"), ("fill", "\x7b\x7bred|c\x7d\x7d")] false)),
      .plain "a &amp; b".toList,
      .mark (.opening (plainTag "use" [("href", "#a")] true)),
      .mark (.closing ['g'] [])]
  gap := []
  back := [.plain [' ']]

/-- The source that holds this image. -/
def plainSource : Source := .ofText "svg/icon.svg".toList plainDocument.text "h1".toList

theorem plainDocument_root : plainDocument.root.IsProper ∧
    plainDocument.root.Binds .initial .initial ∧ ∀ ids, plainDocument.root.IsSettled ids :=
  isProper_plainTag (by decide +kernel) (by decide +kernel) (by decide +kernel)

theorem plainDocument_isProper : plainDocument.IsProper .initial := by
  obtain ⟨hg, hgBinds, -⟩ : (plainTag "g" [("id", "a"), ("fill", "\x7b\x7bred|c\x7d\x7d")]
      false).IsProper ∧ _ :=
    isProper_plainTag (by decide +kernel) (by decide +kernel) (by decide +kernel)
  obtain ⟨huse, huseBinds, -⟩ : (plainTag "use" [("href", "#a")] true).IsProper ∧ _ :=
    isProper_plainTag (by decide +kernel) (by decide +kernel) (by decide +kernel)
  have hcomment : IsAside "!-- a --".toList :=
    ⟨_, List.mem_cons_self .., " a ".toList, rfl, by decide +kernel⟩
  have hdeclaration : IsAside "?xml version=\"1.0\"?".toList :=
    ⟨_, List.mem_cons_of_mem _ (List.mem_cons_self ..), " version=\"1.0\"".toList, rfl,
      by decide +kernel⟩
  have hplain : IsData "a &amp; b".toList := by
    have hreference : IsReference "amp;".toList :=
      .of_run (r := .entity "amp".toList) rfl (by decide +kernel)
    exact (IsData.of_forall (s := "a ".toList) (by decide +kernel)).append
      (.reference hreference (.of_forall (s := " b".toList) (by decide +kernel)))
  refine ⟨List.forall_mem_singleton.2 hdeclaration, plainDocument_root.1, rfl, rfl, ?_, ?_, nofun,
    List.forall_mem_singleton.2 (List.forall_mem_singleton.2 rfl)⟩
  · intro i hi
    simp only [plainDocument, List.mem_cons, List.not_mem_nil, or_false] at hi
    rcases hi with rfl | rfl | rfl | rfl | rfl | rfl | rfl
    · exact hcomment
    · trivial
    · trivial
    · exact hg
    · exact hplain
    · exact huse
    · exact ⟨hg.name.isClosingName, nofun⟩
  · exact .aside (.opened rfl hgBinds (.empty rfl huseBinds (.closed (by simp) (.nil _))))

theorem plainDocument_isClear : ∀ i ∈ plainDocument.body, i.IsClear := by
  intro i hi
  simp only [plainDocument, List.mem_cons, List.not_mem_nil, or_false] at hi
  have hmark : ∀ {k : Mark}, OpenTag.read styleName Attributes.admitsContent k.text = none →
      OpenTag.read scriptName Attributes.admitsContent k.text = none → (Item.mark k).IsClear := by
    rintro k hstyle hscript name (rfl | rfl)
    · exact hstyle
    · exact hscript
  rcases hi with rfl | rfl | rfl | rfl | rfl | rfl | rfl
  · exact hmark (by decide +kernel) (by decide +kernel)
  · exact .inl (by decide +kernel)
  · exact .inr ⟨by decide +kernel, by decide +kernel, by decide +kernel⟩
  · exact hmark (by decide +kernel) (by decide +kernel)
  · trivial
  · exact hmark (by decide +kernel) (by decide +kernel)
  · exact hmark (by decide +kernel) (by decide +kernel)

theorem plainSource_svg : plainSource.svg = plainDocument.text := by decide +kernel

theorem plainDocument_isGuarded : plainDocument.IsGuarded (renamingOf {} plainSource) where
  settled := by
    intro k hk
    simp only [Document.items, plainDocument, List.mem_cons, List.mem_append, List.not_mem_nil,
      or_false, Item.mark.injEq, reduceCtorEq, false_or] at hk
    rcases hk with rfl | rfl | (rfl | rfl | rfl | rfl) | rfl
    · trivial
    · exact plainDocument_root.2.2 _
    · trivial
    · exact (isProper_plainTag (by decide +kernel) (by decide +kernel) (by decide +kernel)).2.2 _
    · exact (isProper_plainTag (by decide +kernel) (by decide +kernel) (by decide +kernel)).2.2 _
    · trivial
    · trivial
  declarations := by decide +kernel
  harmless := ⟨by decide +kernel, by decide +kernel, by decide +kernel⟩

theorem wellFormed_of_result_plain :
    ∃ a r, builtIn.process {} plainSource = .ok a ∧ a.state.result? = some r ∧
      r.svg = ("<g id=\"h1-a-\x7b\x7buuid\x7d\x7d\" fill=\"\x7b\x7bc\x7d\x7d\">a &amp; b" ++
        "<use href=\"#h1-a-\x7b\x7buuid\x7d\x7d\"/></g>").toList ∧
      malformation? ((Mark.opening plainDocument.root).text ++ (r.svg ++ "</svg>".toList)) =
        none := by
  obtain ⟨a, r, hprocess, hresult, hsvg⟩ :=
    exists_result_of_any (x := builtIn.process {} plainSource) (p := fun r => r.svg ==
      ("<g id=\"h1-a-\x7b\x7buuid\x7d\x7d\" fill=\"\x7b\x7bc\x7d\x7d\">a &amp; b" ++
        "<use href=\"#h1-a-\x7b\x7buuid\x7d\x7d\"/></g>").toList) (by decide +kernel)
  exact ⟨a, r, hprocess, hresult, beq_iff_eq.1 hsvg,
    wellFormed_of_result plainSource_svg plainDocument_isProper plainDocument_root.2.1
      plainDocument_isClear plainDocument_isGuarded hprocess hresult⟩

/-! ## An image that is cut in a comment -/

/-- The content of an image with the opening tag of a script in a comment. -/
def commentContent : Text := "<!-- <script> --><g/><script>f()</script></svg>".toList

/-- The source of this image. -/
def commentSource : Source :=
  .ofText "svg/icon.svg".toList ((Mark.opening plainDocument.root).text ++ commentContent)
    "h1".toList

/-- **A comment may be cut in two.** A script is taken to begin within the comment, and what is left
of it is the start of a comment that nothing ends. -/
theorem comment_opened_in_record :
    malformation? commentSource.svg = none ∧
      ∃ a r, builtIn.process {} commentSource = .ok a ∧ a.state.result? = some r ∧
        malformation? ((Mark.opening plainDocument.root).text ++ (r.svg ++ "</svg>".toList)) ≠
          none := by
  obtain ⟨hroot, hbinds, -⟩ := plainDocument_root
  have hiff := fun content => malformation?_eq_none_iff hroot rfl rfl hbinds content
  have htext : ∀ content, (Mark.opening plainDocument.root).text ++ content =
      '<' :: (plainDocument.root.inner ++ '>' :: content) := by
    simp [Mark.text, Mark.inner]
  have hg : (plainTag "g" [] true).IsProper ∧ (plainTag "g" [] true).Binds .initial .initial ∧ _ :=
    isProper_plainTag (by decide +kernel) (by decide +kernel) (by decide +kernel)
  have hscript : (plainTag "script" [] false).IsProper ∧
      (plainTag "script" [] false).Binds .initial .initial ∧ _ :=
    isProper_plainTag (by decide +kernel) (by decide +kernel) (by decide +kernel)
  refine ⟨?_, ?_⟩
  · have hsource : commentSource.svg =
        '<' :: (plainDocument.root.inner ++ '>' :: commentContent) := by
      decide +kernel
    rw [hsource, hiff]
    have hclosing : IsClosingName Markup.rootName := hroot.name.isClosingName
    -- Behind the comment there are an empty element and a script.
    let spans : Spans := [(.opening (plainTag "g" [] true), []),
      (.opening (plainTag "script" [] false), "f()".toList), (.closing scriptName [], [])]
    have hspans : AreProper spans :=
      List.forall_mem_cons.2 ⟨⟨hg.1, .nil⟩, List.forall_mem_cons.2
        ⟨⟨hscript.1, .of_forall (by decide +kernel)⟩, List.forall_mem_singleton.2
          ⟨⟨hscript.1.name.isClosingName, List.forall_mem_nil _⟩, .nil⟩⟩⟩
    have hleads : Leads [⟨Markup.rootName, .initial⟩] (spans.map Prod.fst)
        [⟨Markup.rootName, .initial⟩] :=
      .empty rfl hg.2.1 (.opened rfl hscript.2.1 (.closed (by simp) (.nil _)))
    have hread := hleads.readContent_eq_ok hclosing .nil hspans (by simp [spans])
      Doctype.isBare_empty 0 []
    have hcomment : readContent .empty 0 [] .document .initial [⟨Markup.rootName, .initial⟩]
        ('<' :: '!' :: '-' :: '-' :: (" <script> ".toList ++ '-' :: '-' :: '>' ::
          "<g/><script>f()</script></svg>".toList)) = _ :=
      readContent_comment (by decide +kernel) _
    exact ⟨[], hcomment.trans hread, by rw [prologTokens, checkEpilog]⟩
  · obtain ⟨a, r, hprocess, hresult, hsvg⟩ :=
      exists_result_of_any (x := builtIn.process {} commentSource)
        (p := fun r => r.svg == "<!--".toList) (by decide +kernel)
    refine ⟨a, r, hprocess, hresult, ?_⟩
    rw [beq_iff_eq.1 hsvg, htext, Ne, hiff]
    rintro ⟨rest, hread, -⟩
    obtain ⟨f, herror⟩ : ∃ f, readContent .empty 0 [] .document .initial
        [⟨Markup.rootName, .initial⟩] ('<' :: '!' :: '-' :: '-' :: "</svg>".toList) = .error f :=
      exists_readContent_eq_error (by decide +kernel)
    cases herror.symm.trans hread

end Pipeline

end SvgAssets
