/-
# SvgAssets.Proofs.Xml.Nesting -- content that is read to its end

Content is text with marks in it: opening and closing tags, and asides such as comments. The tags
are read with a stack of the elements that are open, and content leads from one stack to another
(`Leads`). Where it leads back to the root element alone, the root element can be closed, and the
document is read to its end (`rootName_eq_ok`).
-/
import SvgAssets.Proofs.Text.Replacing
import SvgAssets.Proofs.Xml.Checking
import SvgAssets.Xml.Document

namespace SvgAssets.Xml

open Text

/-! ## Marks -/

/-- What stands between a pair of angle brackets. -/
inductive Mark where
  | opening (t : WrittenTag)
  | closing (name gap : Text)
  | aside (inner : Text)

/-- What asides begin and end with: comments, and the declaration of a document. -/
def asideDelimiters : List (Text × Text) :=
  [(['!', '-', '-'], ['-', '-']), (['?', 'x', 'm', 'l'], ['?'])]

/-- What stands between the brackets of an aside that holds no further bracket. -/
def IsAside (inner : Text) : Prop :=
  ∃ x ∈ asideDelimiters, ∃ body, inner = x.1 ++ body ++ x.2 ∧ ∀ c ∈ body, c ≠ '<' ∧ c ≠ '>'

namespace Mark

/-- What stands between the angle brackets. -/
def inner : Mark → Text
  | .opening t => t.inner
  | .closing name gap => '/' :: name ++ gap
  | .aside inner => inner

/-- The mark as it stands in the text. -/
def text (k : Mark) : Text := '<' :: k.inner ++ ['>']

/-- Tags can be read, and asides hold no bracket. -/
def IsProper : Mark → Prop
  | .opening t => t.IsProper
  | .closing name gap => IsClosingName name ∧ ∀ c ∈ gap, isSpace c = true
  | .aside inner => IsAside inner

end Mark

/-- Marks, each with the text behind it. -/
abbrev Spans := List (Mark × Text)

/-- Marks and the texts behind them, one after the other. -/
def spansText (spans : Spans) : Text := spans.flatMap fun (k, behind) => k.text ++ behind

theorem spansText_cons (k : Mark) (behind : Text) (spans : Spans) (rest : Text) :
    spansText ((k, behind) :: spans) ++ rest =
      '<' :: (k.inner ++ '>' :: (behind ++ (spansText spans ++ rest))) := by
  simp [spansText, Mark.text]

/-- The marks can be read, and the texts need no declaration. -/
def AreProper (spans : Spans) : Prop := ∀ x ∈ spans, x.1.IsProper ∧ IsData x.2

/-! ## Open elements -/

/-- The prefixes that are bound inside the innermost element. -/
def bindingsOf (stack : List OpenElement) : Bindings :=
  (stack.head?.map (·.bindings)).getD .initial

/-- With the elements of the first stack open, the marks leave those of the second one open. The
root element is not closed. -/
inductive Leads : List OpenElement → List Mark → List OpenElement → Prop
  | nil (stack) : Leads stack [] stack
  | aside {inner stack marks final} : Leads stack marks final →
      Leads stack (.aside inner :: marks) final
  | empty {t inside stack marks final} : t.isEmpty = true → t.Binds (bindingsOf stack) inside →
      Leads stack marks final → Leads stack (.opening t :: marks) final
  | opened {t inside stack marks final} : t.isEmpty = false → t.Binds (bindingsOf stack) inside →
      Leads (⟨t.name.text, inside⟩ :: stack) marks final → Leads stack (.opening t :: marks) final
  | closed {e gap stack marks final} : stack ≠ [] → Leads stack marks final →
      Leads (e :: stack) (.closing e.name gap :: marks) final

/-- The mark neither opens nor closes an element. -/
def Mark.IsSilent : Mark → Prop
  | .opening t => t.isEmpty = true
  | .closing _ _ => False
  | .aside _ => True

/-- Marks that neither open nor close an element can be left out. -/
theorem Leads.filter {keep : Mark → Bool} {stack final : List OpenElement} {marks : List Mark}
    (h : Leads stack marks final) (hsilent : ∀ k ∈ marks, keep k = false → k.IsSilent) :
    Leads stack (marks.filter keep) final := by
  induction h with
  | nil => exact .nil _
  | @aside inner stack marks final _ ih =>
    have hrest := ih (List.forall_mem_cons.1 hsilent).2
    cases hkeep : keep (.aside inner) with
    | true =>
      rw [List.filter_cons_of_pos hkeep]
      exact .aside hrest
    | false => rwa [List.filter_cons_of_neg (by simp [hkeep])]
  | @empty t inside stack marks final hempty hbinds _ ih =>
    have hrest := ih (List.forall_mem_cons.1 hsilent).2
    cases hkeep : keep (.opening t) with
    | true =>
      rw [List.filter_cons_of_pos hkeep]
      exact .empty hempty hbinds hrest
    | false => rwa [List.filter_cons_of_neg (by simp [hkeep])]
  | @opened t inside stack marks final hempty hbinds _ ih =>
    obtain ⟨hfirst, hsilent⟩ := List.forall_mem_cons.1 hsilent
    have hkeep : keep (.opening t) = true := by
      rw [← Bool.not_eq_false]
      intro hdrop
      rw [show t.isEmpty = true from hfirst hdrop] at hempty
      cases hempty
    rw [List.filter_cons_of_pos hkeep]
    exact .opened hempty hbinds (ih hsilent)
  | @closed e gap stack marks final hne _ ih =>
    obtain ⟨hfirst, hsilent⟩ := List.forall_mem_cons.1 hsilent
    have hkeep : keep (.closing e.name gap) = true := by
      rw [← Bool.not_eq_false]
      exact hfirst
    rw [List.filter_cons_of_pos hkeep]
    exact .closed hne (ih hsilent)

/-! ## Comments -/

theorem readComment_append {body : Text} (h : ∀ c ∈ body, isLegal c = true ∧ c ≠ '-') (s : Text) :
    readComment (body ++ s) = readComment s := by
  induction body with
  | nil => rfl
  | cons c body ih =>
    obtain ⟨⟨hlegal, hhyphen⟩, hbody⟩ := List.forall_mem_cons.1 h
    rw [List.cons_append, readComment, if_pos hlegal, ih hbody]
    all_goals
      intros
      exact absurd ‹_› hhyphen

theorem run_markupOfContent_comment (s : Text) :
    markupOfContent.run ('!' :: '-' :: '-' :: s) = (readComment s).map fun x => (.aside, x.2) := by
  have hcomment : commentReader.run ('-' :: s) = readComment s := by
    cases h : readComment s <;> simp [commentReader, bind, Reader.bind, Reader.one, h]
  rw [markupOfContent, Reader.run_behind_of_head?_ne (by simp),
    Reader.run_behind_of_head?_ne (by simp),
    show '!' :: '-' :: '-' :: s = ['!'] ++ (['-'] ++ '-' :: s) from rfl, Reader.run_behind_append,
    Reader.run_behind_append]
  simp only [bind, Reader.bind, hcomment]
  cases readComment s <;> rfl

section

variable {d : Doctype} {depth : Nat} {opened : List Text} {owner : ContentOwner} {outer : Bindings}
  {stack : List OpenElement} {body : Text} (h : ∀ c ∈ body, isLegal c = true ∧ c ≠ '-')

include h

/-- A comment in content is passed over. -/
theorem readContent_comment (rest : Text) :
    readContent d depth opened owner outer stack
        ('<' :: '!' :: '-' :: '-' :: (body ++ '-' :: '-' :: '>' :: rest)) =
      readContent d depth opened owner outer stack rest := by
  have hrun := run_markupOfContent_comment (body ++ '-' :: '-' :: '>' :: rest)
  rw [readComment_append h, readComment] at hrun
  rw [readContent]
  split <;> rename_i he <;> rw [hrun] at he <;> cases he
  rfl

/-- A comment that nothing ends is a fault. -/
theorem exists_readContent_eq_error :
    ∃ f, readContent d depth opened owner outer stack ('<' :: '!' :: '-' :: '-' :: body) =
      .error f := by
  have hrun := run_markupOfContent_comment body
  have hnil := readComment_append h []
  rw [List.append_nil, readComment] at hnil
  rw [hnil] at hrun
  refine ⟨Stop.fault ('<' :: '!' :: '-' :: '-' :: body) .unfinished, ?_⟩
  rw [readContent]
  split <;> rename_i he <;> rw [hrun] at he <;> cases he
  rfl

end

/-! ## Reading content -/

section

variable {d : Doctype} {depth : Nat} {opened : List Text} {owner : ContentOwner} {outer : Bindings}
  {stack : List OpenElement}

theorem readContent_cons {c : Char} {s : Text} (hlegal : isLegal c = true)
    (hopen : c ≠ '<') (hamp : c ≠ '&') (hsection : ¬ [']', ']', '>'] <+: c :: s) (hs : s ≠ []) :
    readContent d depth opened owner outer stack (c :: s) =
      readContent d depth opened owner outer stack s := by
  rw [readContent, if_pos hlegal]
  · rintro rfl rfl
    exact hs rfl
  · rintro rest rfl rfl
    exact hsection ⟨rest, rfl⟩
  · exact hamp
  · exact hopen

theorem readContent_reference {body : Text} (h : IsReference body) (s : Text) :
    readContent d depth opened owner outer stack ('&' :: (body ++ s)) =
      readContent d depth opened owner outer stack s := by
  obtain ⟨r, hr, hreads⟩ := h.reads
  rw [readContent]
  split
  · rename_i e he
    rw [hreads] at he
    cases he
  · rename_i n behind he
    rw [hreads] at he
    cases he
    exact if_pos hr
  · rename_i name behind he
    rw [hreads] at he
    cases he
    simp only [if_pos (show (predefined? name).isSome = true from hr)]

/-- Text in front of a mark is passed over. -/
theorem readContent_append {t : Text} (h : IsData t) (rest : Text) :
    readContent d depth opened owner outer stack (t ++ '<' :: rest) =
      readContent d depth opened owner outer stack ('<' :: rest) := by
  induction h with
  | nil => rfl
  | @char c s hc hs ih =>
    simp only [isDataChar, Bool.and_eq_true, bne_iff_ne] at hc
    rw [List.cons_append, readContent_cons hc.1.1.1 hc.1.1.2 hc.2 ?_ (by simp), ih]
    -- No bracket that closes stands in front of the mark.
    intro hprefix
    have hwithin : [']', ']', '>'] <+: c :: s :=
      prefix_of_prefix_append_cons (c := '<') (by decide) hprefix
    rcases List.mem_cons.1 (hwithin.subset (show '>' ∈ [']', ']', '>'] by decide)) with he | hmem
    · exact hc.1.2 he.symm
    · exact (hs.not_bracket _ hmem).2 rfl
  | @reference body s hbody hs ih =>
    rw [List.cons_append, List.cons_append, List.append_assoc, readContent_reference hbody, ih]

theorem readContent_opening {t : WrittenTag} (ht : t.IsProper) {inside : Bindings}
    (hbinds : t.Binds ((stack.head?.map (·.bindings)).getD outer) inside) (hd : d.IsBare)
    (rest : Text) :
    readContent d depth opened owner outer stack ('<' :: (t.inner ++ '>' :: rest)) =
      readContent d depth opened owner outer
        (if t.isEmpty then stack else ⟨t.name.text, inside⟩ :: stack) rest := by
  obtain ⟨tag, hread, hname, hempty, hattributes⟩ := exists_openTagReader ht rest
  have hmarkup : markupOfContent.run (t.inner ++ '>' :: rest) = .ok (.opened tag, rest) := by
    obtain ⟨c, w, hc, hstart⟩ := ht.name.exists_cons
    have hhead : ∀ d ∈ signs, (t.inner ++ '>' :: rest).head? ≠ some d := by
      rintro d hd he
      rw [WrittenTag.inner, hc, List.cons_append, List.cons_append, List.head?_cons,
        Option.some.injEq] at he
      rw [he] at hstart
      have := isNameChar_of_isNameStart hstart
      rw [isNameChar_eq_false_of_mem_signs hd] at this
      cases this
    rw [markupOfContent, Reader.run_behind_of_head?_ne (hhead '/' (by decide)),
      Reader.run_behind_of_head?_ne (hhead '?' (by decide)),
      Reader.run_behind_of_head?_ne (hhead '!' (by decide)), Reader.run_bind_eq_ok_iff]
    exact ⟨tag, rest, hread, rfl⟩
  have hcheck := hbinds.check_eq_ok ht hname hattributes hd opened ('<' :: (t.inner ++ '>' :: rest))
  rw [readContent]
  split <;> rename_i he <;> rw [hmarkup] at he <;> cases he
  simp only [hcheck, hempty, hname]
  cases t.isEmpty <;> rfl

theorem readContent_closing {e : OpenElement} {gap : Text} (hname : IsClosingName e.name)
    (hgap : ∀ c ∈ gap, isSpace c = true) (rest : Text) :
    readContent d depth opened owner outer (e :: stack)
        ('<' :: '/' :: (e.name ++ gap ++ '>' :: rest)) =
      if owner = .document ∧ stack.isEmpty then .ok rest
      else readContent d depth opened owner outer stack rest := by
  have hmarkup : markupOfContent.run ('/' :: (e.name ++ gap ++ '>' :: rest)) =
      .ok (.closed e.name, rest) := by
    rw [markupOfContent, show '/' :: (e.name ++ gap ++ '>' :: rest) =
      ['/'] ++ (e.name ++ gap ++ '>' :: rest) from rfl, Reader.run_behind_append,
      Reader.run_bind_eq_ok_iff]
    exact ⟨e.name, rest, run_closeTagReader_eq_ok_iff.2 ⟨gap, rfl, hname, hgap⟩, rfl⟩
  rw [readContent]
  split <;> rename_i he <;> rw [hmarkup] at he <;> cases he
  exact if_neg (not_not.2 rfl)

/-- Text in front of marks is passed over. -/
theorem readContent_append_spans {t : Text} (ht : IsData t) (spans : Spans) (rest : Text) :
    readContent d depth opened owner outer stack (t ++ (spansText spans ++ '<' :: rest)) =
      readContent d depth opened owner outer stack (spansText spans ++ '<' :: rest) := by
  obtain ⟨u, hu⟩ : ∃ u, spansText spans ++ '<' :: rest = '<' :: u := by
    cases spans with
    | nil => exact ⟨rest, rfl⟩
    | cons x spans => exact ⟨_, rfl⟩
  rw [hu, readContent_append ht]

/-- **Content is read to its end.** -/
theorem Leads.readContent_eq {marks : List Mark} {final : List OpenElement}
    (h : Leads stack marks final) {spans : Spans} (hmarks : spans.map Prod.fst = marks)
    (hspans : AreProper spans) (hasides : ∀ inner, .aside inner ∉ marks) (hd : d.IsBare)
    (rest : Text) :
    readContent d depth opened .document .initial stack (spansText spans ++ '<' :: rest) =
      readContent d depth opened .document .initial final ('<' :: rest) := by
  induction h generalizing spans with
  | nil =>
    rw [List.map_eq_nil_iff.1 hmarks]
    rfl
  | @aside inner => exact absurd (List.mem_cons_self ..) (hasides inner)
  | @empty t inside stack marks final hempty hbinds _ ih =>
    obtain ⟨⟨_, behind⟩, spans, rfl, rfl, hrest⟩ := List.map_eq_cons_iff.1 hmarks
    obtain ⟨hfirst, hspans⟩ := List.forall_mem_cons.1 hspans
    have hread : readContent d depth opened .document .initial stack _ = _ :=
      readContent_opening hfirst.1 hbinds hd (behind ++ (spansText spans ++ '<' :: rest))
    rw [spansText_cons, Mark.inner, hread, hempty, if_pos rfl, readContent_append_spans hfirst.2]
    exact ih hrest hspans fun inner hmem => hasides inner (List.mem_cons_of_mem _ hmem)
  | @opened t inside stack marks final hempty hbinds _ ih =>
    obtain ⟨⟨_, behind⟩, spans, rfl, rfl, hrest⟩ := List.map_eq_cons_iff.1 hmarks
    obtain ⟨hfirst, hspans⟩ := List.forall_mem_cons.1 hspans
    have hread : readContent d depth opened .document .initial stack _ = _ :=
      readContent_opening hfirst.1 hbinds hd (behind ++ (spansText spans ++ '<' :: rest))
    rw [spansText_cons, Mark.inner, hread, hempty, if_neg Bool.false_ne_true,
      readContent_append_spans hfirst.2]
    exact ih hrest hspans fun inner hmem => hasides inner (List.mem_cons_of_mem _ hmem)
  | @closed e gap stack marks final hne _ ih =>
    obtain ⟨⟨_, behind⟩, spans, rfl, rfl, hrest⟩ := List.map_eq_cons_iff.1 hmarks
    obtain ⟨hfirst, hspans⟩ := List.forall_mem_cons.1 hspans
    have hread : readContent d depth opened .document .initial (e :: stack) _ = _ :=
      readContent_closing hfirst.1.1 hfirst.1.2 (behind ++ (spansText spans ++ '<' :: rest))
    have hopen : ¬ (ContentOwner.document = ContentOwner.document ∧ stack.isEmpty = true) :=
      fun h => hne (List.isEmpty_iff.1 h.2)
    rw [if_neg hopen] at hread
    rw [spansText_cons, Mark.inner, List.cons_append, List.cons_append, hread,
      readContent_append_spans hfirst.2]
    exact ih hrest hspans fun inner hmem => hasides inner (List.mem_cons_of_mem _ hmem)

end

/-- The root element is read, and then its content with nothing else open. -/
theorem readRoot_eq {root : WrittenTag} (hroot : root.IsProper) (hempty : root.isEmpty = false)
    {inside : Bindings} (hbinds : root.Binds .initial inside) {d : Doctype} (hd : d.IsBare)
    (content : Text) :
    readRoot d ('<' :: (root.inner ++ '>' :: content)) =
      (readContent d d.entities.length [] .document .initial [⟨root.name.text, inside⟩]
        content).bind fun rest =>
          (checkEpilog (prologTokens rest)).bind fun _ => .ok root.name.localName := by
  obtain ⟨tag, hread, hname, hnonempty, hattributes⟩ := exists_openTagReader hroot content
  have hcheck := hbinds.check_eq_ok hroot hname hattributes hd []
    ('<' :: (root.inner ++ '>' :: content))
  rw [readRoot, List.drop_one, List.tail_cons, hread]
  simp only [hcheck, hnonempty, hempty, hname, Bool.false_eq_true, if_false]
  rfl

/-- **The content of the root element is read to its end.** -/
theorem Leads.readContent_eq_ok {name : Text} (hname : IsClosingName name) {inside : Bindings}
    {lead : Text} (hlead : IsData lead) {spans : Spans} (hspans : AreProper spans)
    (hasides : ∀ inner, .aside inner ∉ spans.map Prod.fst)
    (hleads : Leads [⟨name, inside⟩] (spans.map Prod.fst) [⟨name, inside⟩]) {d : Doctype}
    (hd : d.IsBare) (depth : Nat) (opened : List Text) :
    readContent d depth opened .document .initial [⟨name, inside⟩]
      (lead ++ (spansText spans ++ '<' :: '/' :: (name ++ ['>']))) = .ok [] := by
  have hgap : ∀ c ∈ ([] : Text), isSpace c = true := nofun
  have hclosing : readContent d depth opened .document .initial [⟨name, inside⟩] _ = _ :=
    readContent_closing hname hgap []
  rw [List.append_nil, if_pos ⟨rfl, rfl⟩] at hclosing
  rw [readContent_append_spans hlead, hleads.readContent_eq rfl hspans hasides hd, hclosing]

end SvgAssets.Xml
