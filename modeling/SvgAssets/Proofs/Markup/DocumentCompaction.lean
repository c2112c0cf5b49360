/-
# SvgAssets.Proofs.Markup.DocumentCompaction -- documents that are compacted and unwrapped

Compacting takes asides out of a document, drops white space that fills the room between two marks,
and compacts each tag. What is left begins and ends with the tags of the root element, so taking
these off leaves its content, which still leads from the root element back to it
(`IsProper.isContent_unwrap`).
-/
import SvgAssets.Proofs.Markup.CompactedTags
import SvgAssets.Proofs.Markup.Documents
import SvgAssets.Proofs.Markup.TagByTag
import SvgAssets.Proofs.Markup.Unwrapping
import SvgAssets.Proofs.Text.Replacing

namespace SvgAssets.Markup

open Text Xml

-- What is said of the characters in a list is decided by going through the list.
attribute [local instance (2000)] List.decidableBAll

/-! ## Asides -/

/-- The item is a mark that begins with a character. -/
def Item.beginsWith (c : Char) : Item → Bool
  | .mark k => k.inner.head? == some c
  | _ => false

/-- Only asides begin with an exclamation or question mark. -/
theorem exists_aside {k : Mark} (hk : k.IsProper) {c : Char} (hc : c ∈ ['!', '?'])
    (hhead : k.inner.head? = some c) : ∃ inner, k = .aside inner := by
  cases k with
  | aside inner => exact ⟨inner, rfl⟩
  | opening t =>
    obtain ⟨d, w, hname, hstart⟩ := hk.name.exists_cons
    rw [Mark.inner, WrittenTag.inner, hname] at hhead
    cases hhead
    have hall : ∀ c ∈ ['!', '?'], isNameStart c = false := by decide +kernel
    rw [hall c hc] at hstart
    cases hstart
  | closing name gap =>
    cases hhead
    exact absurd hc (by decide)

/-- Delimited text ends at the first closing delimiter. -/
theorem breakAt?_append {body stop : Text} {c : Char} (hbody : c ∉ body) (hstop : c ∉ stop)
    (rest : Text) : breakAt? (stop ++ [c]) (body ++ (stop ++ c :: rest)) = some (body, rest) :=
  breakAt?_append_self hstop (fun h => hbody (h.subset (by simp))) rest

section

variable {k : Mark} (hk : k.IsProper)

include hk

theorem comment_read (hhead : k.inner.head? = some '!') (prev : Option Char) (rest : Text) :
    ∃ a, comment.read prev (k.text ++ rest) = some (a, rest) := by
  obtain ⟨inner, rfl⟩ := exists_aside hk (by decide) hhead
  obtain ⟨x, hx, body, rfl, hbody⟩ := hk
  rcases List.mem_pair.1 hx with rfl | rfl
  · refine ⟨body, ?_⟩
    have hbreak := breakAt?_append (fun hmem => (hbody '>' hmem).2 rfl)
      (show '>' ∉ ['-', '-'] by decide) rest
    simpa [comment, delimited, readDelimited, after?, Mark.text, Mark.inner] using hbreak
  · cases hhead

theorem prolog_read (hhead : k.inner.head? = some '?') (prev : Option Char) (rest : Text) :
    ∃ a, Prolog.pattern.read prev (k.text ++ rest) = some (a, rest) := by
  obtain ⟨inner, rfl⟩ := exists_aside hk (by decide) hhead
  obtain ⟨x, hx, body, rfl, hbody⟩ := hk
  rcases List.mem_pair.1 hx with rfl | rfl
  · cases hhead
  · refine ⟨⟨['x', 'm', 'l'], body⟩, ?_⟩
    have hbreak := breakAt?_append (fun hmem => (hbody '>' hmem).2 rfl)
      (show '>' ∉ ['?'] by decide) rest
    have hkeyword : keyword? ['x', 'm', 'l'] ('x' :: 'm' :: 'l' :: (body ++ '?' :: '>' :: rest)) =
        some (['x', 'm', 'l'], body ++ '?' :: '>' :: rest) := rfl
    simp only [List.cons_append, List.nil_append] at hbreak
    simp [Prolog.pattern, Prolog.read, after?, Mark.text, Mark.inner, hkeyword, hbreak]

end

/-- Tokens that all marks with a first character are, and no others, are taken out as marks. -/
theorem erase_marks {α : Type} {p : Pattern α} (hfirst : ∀ x, (p.text x).head? = some '<')
    {c : Char} {items : List Item} (hproper : ∀ i ∈ items, i.IsProper)
    (hblocks : ∀ b, .block b ∉ items)
    (hread : ∀ k, .mark k ∈ items → k.inner.head? = some c → ∀ prev rest,
      ∃ a, p.read prev (k.text ++ rest) = some (a, rest))
    (hnone : ∀ k : Mark, k.inner.head? ≠ some c →
      ∀ prev rest, p.read prev (k.text ++ rest) = none) :
    p.erase (itemsText items) = itemsText (items.filter fun i => !i.beginsWith c) := by
  refine erase_items (fun i hi hdrop prev rest => ?_) fun i hi hkeep prev rest => ?_
  · cases i with
    | plain s => cases hdrop
    | mark k => exact hread k hi (beq_iff_eq.1 hdrop) prev rest
    | block b => cases hdrop
  · cases i with
    | plain s => exact silent_plain hfirst (hproper _ hi) prev rest
    | mark k =>
      exact silent_mark hfirst (hproper _ hi) (hnone k (beq_eq_false_iff_ne.1 hkeep) prev rest)
    | block b => exact absurd hi (hblocks b)

/-- A text that is looked for behind a bracket is not found at a mark that begins otherwise. -/
theorem after?_mark {k : Mark} {c : Char} (hc : c ≠ '>') (hk : k.inner.head? ≠ some c)
    (w rest : Text) : after? ('<' :: c :: w) (k.text ++ rest) = none := by
  rw [Option.eq_none_iff_forall_ne_some]
  intro t ht
  rw [after?_eq_some_iff, Mark.text] at ht
  cases hinner : k.inner with
  | nil =>
    rw [hinner] at ht
    simp only [List.nil_append, List.cons_append, List.cons.injEq, true_and] at ht
    exact hc ht.1.symm
  | cons d inner =>
    rw [hinner] at ht hk
    simp only [List.cons_append, List.cons.injEq, true_and] at ht
    exact hk (congrArg some ht.1)

/-! ## White space between marks -/

theorem isData_joined {t : Text} (h : IsData t) : IsData (joined t) := by
  rw [joined]
  split
  · exact .nil
  · exact h

/-! ## Marks -/

/-- The mark with the inside of its tag compacted. -/
def compactedMark : Mark → Mark
  | .opening t => .opening t.compacted
  | .closing name _ => .closing name []
  | .aside inner => .aside inner

theorem isLike_compactedMark (k : Mark) : k.IsLike (compactedMark k) := by
  cases k with
  | opening t => exact .opening t.isLike_compacted
  | closing name gap => exact .closing name gap []
  | aside inner => exact .aside inner inner

theorem isProper_compactedMark {k : Mark} (hk : k.IsProper) : (compactedMark k).IsProper := by
  cases k with
  | opening t => exact WrittenTag.IsProper.compacted hk
  | closing name gap => exact ⟨hk.1, nofun⟩
  | aside inner => exact hk

/-- **Compacting a mark makes the compacted mark of it.** -/
theorem compactTags_mark {k : Mark} (hk : k.IsProper) (haside : ∀ inner, k ≠ .aside inner)
    (rest : Text) : compactTags (joinTags false (k.text ++ rest)) =
      (compactedMark k).text ++ compactTags (joinTags true rest) := by
  have hproper : AnyTag.IsProper ⟨k.inner⟩ := by
    refine ⟨?_, fun c hc => by simpa using hk.not_bracket c hc⟩
    cases k with
    | opening t =>
      obtain ⟨c, w, hname, -⟩ := hk.name.exists_cons
      simp [Mark.inner, WrittenTag.inner, hname]
    | closing name gap => simp [Mark.inner]
    | aside inner => exact absurd rfl (haside inner)
  have hinner : compactTag k.inner = (compactedMark k).inner := by
    cases k with
    | opening t => exact compactTag_inner hk
    | closing name gap =>
      rw [Mark.inner, compactTag_closing hk.1 hk.2, compactedMark, Mark.inner, List.append_nil]
    | aside inner => exact absurd rfl (haside inner)
  have hcompacted := compactTags_tag_append hproper rest
  rwa [AnyTag.compacted, hinner] at hcompacted

/-- A mark that is compacted, with what is left of the text behind it. -/
def compactedSpan (x : Mark × Text) : Mark × Text := (compactedMark x.1, joined x.2)

theorem areProper_compactedSpan {spans : Spans} (h : AreProper spans) :
    AreProper (spans.map compactedSpan) := by
  intro y hy
  obtain ⟨x, hx, rfl⟩ := List.mem_map.1 hy
  exact ⟨isProper_compactedMark (h x hx).1, isData_joined (h x hx).2⟩

/-- Marks are compacted one by one, and so is what stands between them. -/
theorem compactTags_spans {t : Text} (ht : IsData t) {spans : Spans} (hspans : AreProper spans)
    (hasides : ∀ inner, .aside inner ∉ spans.map Prod.fst) (rest : Text) :
    compactTags (joinTags true (t ++ (spansText spans ++ '<' :: rest))) =
      joined t ++ (spansText (spans.map compactedSpan) ++
        compactTags (joinTags false ('<' :: rest))) := by
  induction spans generalizing t with
  | nil =>
    rw [spansText, List.flatMap_nil, List.nil_append, compactTags_between ht.not_bracket]
    rfl
  | cons x spans ih =>
    obtain ⟨k, behind⟩ := x
    obtain ⟨⟨hk, hbehind⟩, hspans⟩ := List.forall_mem_cons.1 hspans
    have haside : ∀ inner, k ≠ .aside inner := by
      rintro inner rfl
      exact hasides inner (List.mem_cons_self ..)
    have hrest := ih hbehind hspans fun inner hmem => hasides inner (List.mem_cons_of_mem _ hmem)
    have hmark : '<' :: (k.inner ++ '>' :: (behind ++ (spansText spans ++ '<' :: rest))) =
        k.text ++ (behind ++ (spansText spans ++ '<' :: rest)) := by simp [Mark.text]
    rw [spansText_cons, compactTags_between ht.not_bracket, hmark, compactTags_mark hk haside,
      hrest]
    simp [spansText, compactedSpan]

/-! ## Content -/

/-- Text with tags in it that lead from the root element back to it. -/
structure IsContent (inside : Bindings) (lead : Text) (spans : Spans) : Prop where
  isData : IsData lead
  areProper : AreProper spans
  not_aside : ∀ inner, .aside inner ∉ spans.map Prod.fst
  leads : Leads [⟨rootName, inside⟩] (spans.map Prod.fst) [⟨rootName, inside⟩]

theorem ne_of_isBlank {c : Char} (hc : isBlank c = true) : c ≠ '&' ∧ c ≠ '<' ∧ c ≠ '>' := by
  refine ⟨?_, ?_, ?_⟩ <;> rintro rfl <;> cases hc

namespace IsContent

variable {inside : Bindings} {lead : Text} {spans : Spans} (h : IsContent inside lead spans)

include h

theorem compacted : IsContent inside (joined lead) (spans.map compactedSpan) where
  isData := isData_joined h.isData
  areProper := areProper_compactedSpan h.areProper
  not_aside := by
    intro inner hmem
    rw [List.map_map] at hmem
    obtain ⟨⟨k, behind⟩, hk, heq⟩ := List.mem_map.1 hmem
    cases k with
    | aside inner => exact h.not_aside inner (List.mem_map_of_mem hk)
    | opening t => cases heq
    | closing name gap => cases heq
  leads := by
    refine h.leads.of_isLike ?_
    rw [List.map_map, List.forall₂_map_left_iff, List.forall₂_map_right_iff, List.forall₂_same]
    exact fun x hx => ⟨isLike_compactedMark x.1, isProper_compactedMark (h.areProper x hx).1⟩

theorem exists_of_blank_cons {c : Char} (hc : isBlank c = true) {w : Text}
    (heq : c :: w = lead ++ spansText spans) :
    ∃ lead', w = lead' ++ spansText spans ∧ IsContent inside lead' spans := by
  cases lead with
  | cons d lead =>
    obtain ⟨rfl, rfl⟩ := List.cons.inj heq
    exact ⟨lead, rfl, { h with isData := (h.isData.of_cons (ne_of_isBlank hc).1).2 }⟩
  | nil =>
    -- A tag begins with a bracket.
    cases spans with
    | nil => cases heq
    | cons x spans =>
      have hhead := congrArg List.head? heq
      exact absurd (Option.some.inj hhead) (ne_of_isBlank hc).2.1

theorem exists_of_append_blank {c : Char} (hc : isBlank c = true) {w : Text}
    (heq : w ++ [c] = lead ++ spansText spans) :
    ∃ lead' spans', w = lead' ++ spansText spans' ∧ IsContent inside lead' spans' := by
  have hdata : ∀ {t : Text}, IsData (t ++ [c]) → IsData t := fun ht =>
    (ht.of_append_cons (ne_of_isBlank hc).1 (isReferenceChar_eq_false_of_isBlank hc)).1
  rcases List.eq_nil_or_concat spans with rfl | ⟨spans, ⟨k, behind⟩, rfl⟩
  · obtain rfl : w ++ [c] = lead := by simpa [spansText] using heq
    exact ⟨w, [], by simp [spansText], { h with isData := hdata h.isData }⟩
  rw [List.concat_eq_append] at heq h
  have htext : ∀ behind, lead ++ spansText (spans ++ [(k, behind)]) =
      lead ++ spansText spans ++ ('<' :: k.inner) ++ '>' :: behind := by
    simp [spansText, Mark.text]
  rw [htext] at heq
  rcases List.eq_nil_or_concat behind with rfl | ⟨behind, d, rfl⟩
  · -- A tag ends with a bracket.
    obtain ⟨-, hlast⟩ := List.append_inj' heq rfl
    exact absurd (List.singleton_inj.1 hlast) (ne_of_isBlank hc).2.2
  · rw [List.concat_eq_append] at heq h
    rw [← List.cons_append, ← List.append_assoc] at heq
    obtain ⟨rfl, hlast⟩ := List.append_inj' heq rfl
    obtain rfl := List.singleton_inj.1 hlast
    have hmarks : (spans ++ [(k, behind)]).map Prod.fst =
        (spans ++ [(k, behind ++ [c])]).map Prod.fst := by simp
    obtain ⟨hspans, hlast⟩ := List.forall_mem_append.1 h.areProper
    rw [List.forall_mem_singleton] at hlast
    refine ⟨lead, spans ++ [(k, behind)], (htext behind).symm, h.isData,
      List.forall_mem_append.2 ⟨hspans, List.forall_mem_singleton.2 ⟨hlast.1, hdata hlast.2⟩⟩,
      ?_, ?_⟩ <;> rw [hmarks]
    · exact h.not_aside
    · exact h.leads

/-- Content that is trimmed is content. -/
theorem exists_trim : ∃ lead' spans', trim (lead ++ spansText spans) = lead' ++ spansText spans' ∧
    IsContent inside lead' spans' := by
  refine dropAround_induct (P := fun s => ∃ lead spans, s = lead ++ spansText spans ∧
    IsContent inside lead spans) ?_ ?_ ⟨lead, spans, rfl, h⟩
  · rintro c w hc ⟨lead, spans, heq, h⟩
    obtain ⟨lead', hw, h'⟩ := h.exists_of_blank_cons hc heq
    exact ⟨lead', spans, hw, h'⟩
  · rintro c w hc ⟨lead, spans, heq, h⟩
    exact h.exists_of_append_blank hc heq

end IsContent

/-! ## The root element -/

/-- **Unwrapping takes off the tags of the root element.** -/
theorem unwrap_eq_trim {root : WrittenTag} (hroot : root.IsProper)
    (hname : root.name = ⟨none, rootName⟩) (hopen : root.isEmpty = false) (content : Text) :
    unwrap ('<' :: (root.inner ++ '>' :: (content ++ CloseTag.text ⟨rootName, []⟩))) =
      trim content := by
  have hinner : root.inner = rootName ++ root.behindName := by
    rw [WrittenTag.inner, hname]
    rfl
  have hadmits : Attributes.admitsAny root.behindName = true := by
    rw [Attributes.admitsAny_iff]
    intro c hc
    refine isBlank_of_isSpace ((WrittenTag.head?_attributes hroot.attributes hroot.gap_space _ c
      hc).resolve_right ?_)
    rw [hopen]
    exact fun h => Bool.false_ne_true h.2
  have hfirst : OpenTag.IsRoot ⟨rootName, root.behindName⟩ := by
    refine ⟨⟨isTagName_rootName.isForm, fun hmem => ?_⟩, hadmits⟩
    have hbracket := Mark.IsProper.not_bracket (k := .opening root) hroot '>' (by
      rw [Mark.inner, hinner]
      exact List.mem_append_right _ hmem)
    exact hbracket.2 rfl
  have hlast : CloseTag.IsProper rootName ⟨rootName, []⟩ :=
    ⟨isTagName_rootName.isForm, List.forall_mem_nil _⟩
  have htail : HoldsNoClosing [] := by
    intro t _ hmem
    simp [CloseTag.text] at hmem
  have herase := eraseLast_rootClosing hlast htail content
  rw [List.append_nil, List.append_nil] at herase
  have hunwrap := unwrap_append (List.forall_mem_nil _) hfirst
    (content ++ CloseTag.text ⟨rootName, []⟩)
  rw [herase] at hunwrap
  simpa [OpenTag.text, hinner] using hunwrap

namespace Document

variable {d : Document} {inside : Bindings}

/-- Taking out the tokens that all marks with a first character are takes out asides. -/
theorem IsProper.erase_asides (h : d.IsProper inside) (hbody : ∀ b, .block b ∉ d.body) {α : Type}
    {p : Pattern α} (hfirst : ∀ x, (p.text x).head? = some '<') {c : Char} (hc : c ∈ ['!', '?'])
    (hread : ∀ k, .mark k ∈ d.items → k.inner.head? = some c → ∀ prev rest,
      ∃ a, p.read prev (k.text ++ rest) = some (a, rest))
    (hnone : ∀ k : Mark, k.inner.head? ≠ some c →
      ∀ prev rest, p.read prev (k.text ++ rest) = none) :
    ∃ e : Document, p.erase d.text = e.text ∧ e.IsProper inside ∧ (∀ b, .block b ∉ e.body) ∧
      e.items = d.items.filter fun i => !i.beginsWith c := by
  have hsilent : ∀ k : Mark, k.IsProper → (!(Item.mark k).beginsWith c) = false → k.IsSilent := by
    intro k hk hdrop
    obtain ⟨inner, rfl⟩ := exists_aside hk hc (by simpa [Item.beginsWith] using hdrop)
    trivial
  have hitems : (d.filter fun i => !i.beginsWith c).items =
      d.items.filter fun i => !i.beginsWith c := by
    refine items_filter ?_ ?_
    · rw [← Bool.not_eq_false]
      intro hdrop
      have hempty : d.root.isEmpty = true := hsilent (.opening d.root) h.root hdrop
      rw [h.isOpen] at hempty
      cases hempty
    · rw [← Bool.not_eq_false]
      exact hsilent _ h.closing_isProper
  refine ⟨d.filter fun i => !i.beginsWith c, ?_, h.filter fun k hk => hsilent k (h.body _ hk),
    fun b hb => hbody b (List.mem_filter.1 hb).1, hitems⟩
  rw [text, text, hitems]
  exact erase_marks hfirst h.items_isProper (h.block_notMem hbody) hread hnone

/-- **Stripping a document takes its asides out.** -/
theorem IsProper.exists_stripped (h : d.IsProper inside) (hbody : ∀ b, .block b ∉ d.body) :
    ∃ e : Document, stripped d.text = e.text ∧ e.IsProper inside ∧ (∀ b, .block b ∉ e.body) ∧
      ∀ inner, .mark (.aside inner) ∉ e.items := by
  have hnone : ∀ {α : Type} {f : Text → Option α} {k : Mark} {c : Char} {w : Text}, c ≠ '>' →
      k.inner.head? ≠ some c → ∀ rest, (after? ('<' :: c :: w) (k.text ++ rest)).bind f = none := by
    intro α f k c w hc hk rest
    rw [after?_mark hc hk]
    rfl
  obtain ⟨e₁, htext₁, he₁, hbody₁, hitems₁⟩ := h.erase_asides hbody (p := comment) (fun _ => rfl)
    (c := '!') (by decide) (fun k hk hhead => comment_read (h.items_isProper _ hk) hhead)
    fun k hk _ rest => hnone (by decide) hk rest
  obtain ⟨e₂, htext₂, he₂, hbody₂, hitems₂⟩ := he₁.erase_asides hbody₁ (p := Prolog.pattern)
    (fun _ => rfl) (c := '?') (by decide)
    (fun k hk hhead => prolog_read (he₁.items_isProper _ hk) hhead)
    fun k hk _ rest => hnone (by decide) hk rest
  -- No mark is left that could be taken for a document type.
  obtain ⟨e₃, htext₃, he₃, hbody₃, hitems₃⟩ := he₂.erase_asides hbody₂ (p := Doctype.pattern)
    (fun _ => rfl) (c := '!') (by decide)
    (fun k hk hhead => by
      rw [hitems₂, hitems₁] at hk
      have hkept := (List.mem_filter.1 (List.mem_filter.1 hk).1).2
      simp [Item.beginsWith, hhead] at hkept)
    fun k hk _ rest => hnone (by decide) hk rest
  refine ⟨e₃, by rw [stripped, htext₁, htext₂, htext₃], he₃, hbody₃, fun inner hmem => ?_⟩
  have haside : IsAside inner := he₃.items_isProper _ hmem
  rw [hitems₃, hitems₂] at hmem
  obtain ⟨hmem, hbang⟩ := List.mem_filter.1 hmem
  have hquestion := (List.mem_filter.1 hmem).2
  rcases head?_of_isAside haside with hhead | hhead
  · simp [Item.beginsWith, Mark.inner, hhead] at hbang
  · simp [Item.beginsWith, Mark.inner, hhead] at hquestion

/-- Without asides a document is its root element between white space. -/
theorem IsProper.exists_content (h : d.IsProper inside) (hbody : ∀ b, .block b ∉ d.body)
    (hasides : ∀ inner, .mark (.aside inner) ∉ d.items) :
    ∃ front lead spans back, (∀ c ∈ front, isSpace c = true) ∧ (∀ c ∈ back, isSpace c = true) ∧
      IsContent inside lead spans ∧
      d.text = front ++ '<' :: (d.root.inner ++ '>' :: (lead ++ (spansText spans ++
        ((Mark.closing rootName d.gap).text ++ back)))) := by
  have houter : ∀ {items : List Item}, (∀ i ∈ items, i.IsOuter) → (∀ i ∈ items, i ∈ d.items) →
      (spansOf items).2 = [] := by
    intro items hitems hmem
    rw [List.eq_nil_iff_forall_not_mem]
    intro x hx
    obtain ⟨⟨inner, haside⟩, -⟩ := (isSurrounding_spansOf hitems).2 x hx
    have hmark : x.1 ∈ marksOf items := by
      rw [← marks_spansOf]
      exact List.mem_map_of_mem hx
    rw [haside, mem_marksOf] at hmark
    exact hasides inner (hmem _ hmark)
  have hfront := houter h.front fun i hi => List.mem_append_left _ hi
  have hback := houter h.back fun i hi => by simp [items, hi]
  obtain ⟨hlead, hspans⟩ := areProper_spansOf h.body
  refine ⟨(spansOf d.front).1, (spansOf d.body).1, (spansOf d.body).2, (spansOf d.back).1,
    (isSurrounding_spansOf h.front).1, (isSurrounding_spansOf h.back).1,
    ⟨hlead, hspans, fun inner hmem => ?_, ?_⟩, ?_⟩
  · rw [marks_spansOf, mem_marksOf] at hmem
    exact hasides inner (by simp [items, hmem])
  · rw [marks_spansOf]
    exact h.leads
  · rw [text, ← text_spansOf (h.block_notMem hbody), spansOf_items, hfront, hback]
    simp [spansText, Mark.text, Mark.inner]

/-- **Compacting leaves the root element**, with what is left of its content. -/
theorem IsProper.compact_eq (h : d.IsProper inside) {front lead back : Text} {spans : Spans}
    (hfront : ∀ c ∈ front, isSpace c = true) (hback : ∀ c ∈ back, isSpace c = true)
    (hcontent : IsContent inside lead spans) :
    trim (compactTags (joinTags false (front ++ '<' :: (d.root.inner ++ '>' :: (lead ++
      (spansText spans ++ ((Mark.closing rootName d.gap).text ++ back))))))) =
        '<' :: (d.root.compacted.inner ++ '>' :: (joined lead ++
          (spansText (spans.map compactedSpan) ++ CloseTag.text ⟨rootName, []⟩))) := by
  have hbracket : ∀ {t : Text}, (∀ c ∈ t, isSpace c = true) → ∀ c ∈ t, c ≠ '<' ∧ c ≠ '>' :=
    fun ht c hc => (ne_of_isBlank (isBlank_of_isSpace (ht c hc))).2
  have hopening : ∀ (t : WrittenTag) s,
      '<' :: (t.inner ++ '>' :: s) = (Mark.opening t).text ++ s := by
    simp [Mark.text, Mark.inner]
  have hclosing : compactTags (joinTags false ((Mark.closing rootName d.gap).text ++ back)) =
      CloseTag.text ⟨rootName, []⟩ ++ back := by
    rw [compactTags_mark h.closing_isProper (by simp), compactTags_behind (hbracket hback)]
    rfl
  have hspans := compactTags_spans hcontent.isData hcontent.areProper hcontent.not_aside
    ('/' :: (rootName ++ d.gap ++ '>' :: back))
  have hwritten : '<' :: '/' :: (rootName ++ d.gap ++ '>' :: back) =
      (Mark.closing rootName d.gap).text ++ back := by simp [Mark.text, Mark.inner]
  rw [hwritten, hclosing] at hspans
  rw [hopening, joinTags_append fun hmem => (hbracket hfront _ hmem).2 rfl,
    compactTags_append fun hmem => (hbracket hfront _ hmem).1 rfl,
    compactTags_mark (k := .opening d.root) h.root (by simp), hspans, hopening]
  -- What stands around the root element is white space.
  have hend : (CloseTag.text ⟨rootName, []⟩).getLast? = some '>' := rfl
  have htrim := dropAround_append (isBlank_of_space hfront) (isBlank_of_space hback)
    (s := (Mark.opening d.root.compacted).text ++ (joined lead ++
      (spansText (spans.map compactedSpan) ++ CloseTag.text ⟨rootName, []⟩)))
    (by rintro c ⟨⟩; rfl) (by
      rw [List.getLast?_append, List.getLast?_append, List.getLast?_append, hend]
      rintro c ⟨⟩
      rfl)
  simpa only [List.append_assoc, trim, compactedMark] using htrim

/-- **Compacted and unwrapped, a document is its content.** -/
theorem IsProper.exists_unwrap (h : d.IsProper inside) (hbody : ∀ b, .block b ∉ d.body) :
    ∃ lead spans, unwrap (compact d.text) = lead ++ spansText spans ∧
      IsContent inside lead spans := by
  obtain ⟨e, hstripped, he, hbody, hasides⟩ := h.exists_stripped hbody
  obtain ⟨front, lead, spans, back, hfront, hback, hcontent, htext⟩ :=
    he.exists_content hbody hasides
  obtain ⟨lead', spans', htrim, hcontent'⟩ := hcontent.compacted.exists_trim
  refine ⟨lead', spans', ?_, hcontent'⟩
  rw [Markup.compact_eq, hstripped, htext, he.compact_eq hfront hback hcontent,
    ← List.append_assoc (joined lead), unwrap_eq_trim he.root.compacted he.name he.isOpen, htrim]

end Document

end SvgAssets.Markup
