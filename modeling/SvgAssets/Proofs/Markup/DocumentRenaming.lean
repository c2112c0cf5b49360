/-
# SvgAssets.Proofs.Markup.DocumentRenaming -- documents with renamed identifiers

Declarations are reduced, and identifiers renamed, by passes that look for their tokens anywhere in
a document. Each token that is changed is an exchange that does no harm, so what the passes make of
a document is a version of it (`isVersion_normalize`, `isVersion_apply`).
-/
import Mathlib.Data.List.Induction
import SvgAssets.Proofs.Markup.Tokens
import SvgAssets.Proofs.Text.Cutting
import SvgAssets.Proofs.Xml.Versions
import SvgAssets.Template.Declaration

namespace SvgAssets.Markup

open Text Xml

-- What is said of the characters in a list is decided by going through the list.
attribute [local instance (2000)] List.decidableBAll

theorem isData_trim {s : Text} (h : IsData s) : IsData (trim s) := by
  refine dropAround_induct (P := IsData) ?_ ?_ h
  · intro c w hc h
    exact (h.of_append_cons (s := []) (fun he => by rw [he] at hc; cases hc)
      (isReferenceChar_eq_false_of_isBlank hc)).2.2
  · intro c w hc h
    exact (h.of_append_cons (fun he => by rw [he] at hc; cases hc)
      (isReferenceChar_eq_false_of_isBlank hc)).1

/-! ## Declarations -/

/-- A declaration without quotes and brackets may give way to the reference. -/
theorem exchange_declaration (ids : List Text) {d : Template.Declaration}
    (h : ∀ c ∈ d.text, c ∉ delimiters) : Exchange ids d.text d.reference := by
  have hbrace : ∀ c ∈ ['\x7b', '\x7d', '|'], c ≠ '&' ∧ isReferenceChar c = false ∧
      isDataChar c = true ∧ c ∉ delimiters := by decide +kernel
  have hopen := hbrace '\x7b' (by decide)
  have hclose := hbrace '\x7d' (by decide)
  have hbar := hbrace '|' (by decide)
  refine Exchange.foreign ⟨'\x7b', by simp [Template.Declaration.text], by decide⟩ h ?_ ?_ ?_ ?_
  · intro c hc
    have hparts : c = '\x7b' ∨ c ∈ d.pathText ∨ c = '\x7d' := by
      have hpath : c ∈ d.path → c ∈ d.pathText := mem_of_mem_trim
      simp only [Template.Declaration.reference, List.cons_append, List.mem_cons, List.mem_append,
        List.not_mem_nil, or_false] at hc
      tauto
    rcases hparts with rfl | hc | rfl
    · exact hopen.2.2.2
    · exact h c (by simp [Template.Declaration.text, hc])
    · exact hclose.2.2.2
  · rintro c ⟨⟩
    exact .inl (by decide)
  · have hlast : d.text = ('\x7b' :: '\x7b' :: d.written ++ '|' :: d.pathText ++ ['\x7d']) ++
        ['\x7d'] := by simp [Template.Declaration.text]
    rw [hlast, List.getLast?_concat]
    rintro c ⟨⟩
    exact .inl (by decide)
  · intro a b hdata
    have hfirst : IsData (a ++ '\x7b' :: ('\x7b' :: (d.written ++ '|' :: (d.pathText ++
        '\x7d' :: ('\x7d' :: b))))) := by
      simpa [Template.Declaration.text] using hdata
    obtain ⟨ha, -, hrest⟩ := hfirst.of_append_cons hopen.1 hopen.2.1
    obtain ⟨-, -, hrest⟩ := (IsData.of_cons hopen.1 hrest).2.of_append_cons hbar.1 hbar.2.1
    obtain ⟨hpath, -, hrest⟩ := hrest.of_append_cons hclose.1 hclose.2.1
    have hb := (IsData.of_cons hclose.1 hrest).2
    have hreference := ha.append (.char hopen.2.2.1 (.char hopen.2.2.1 ((isData_trim hpath).append
      (.char hclose.2.2.1 (.char hclose.2.2.1 hb)))))
    simpa [Template.Declaration.reference, Template.Declaration.path] using hreference

/-- **Reducing declarations makes a version of a document.** -/
theorem isVersion_normalize {lead : Text} {spans : Spans} {u : Text} {ids : List Text}
    (hsettled : ∀ y ∈ spans, y.1.IsSettled ids)
    (hdeclarations : ∀ d ∈ Template.declarations u, ∀ c ∈ d.text, c ∉ delimiters)
    (hu : IsVersion lead spans u) : IsVersion lead spans (Template.normalize u) :=
  Pattern.replace_of_step (fun _ d _ hd h =>
    (exchange_declaration ids (hdeclarations d hd)).isVersion hsettled h) hu

/-! ## Identifiers -/

/-- The identifiers hold no quotes, brackets and equals signs, and what new names are made of
besides is text that needs no quotes. -/
structure Renaming.IsHarmless (r : Renaming) : Prop where
  ids : ∀ id ∈ r.ids, ∀ c ∈ id, c ∉ '=' :: delimiters
  hash : ∀ c ∈ r.hash, isDataChar c = true ∧ c ∉ delimiters
  instanceVariable : ∀ c ∈ r.instanceVariable, isDataChar c = true ∧ c ∉ delimiters

section

variable {r : Renaming} (hr : r.IsHarmless)

include hr

theorem Renaming.IsHarmless.newName_chars {id : Text} (hid : id ∈ r.ids) :
    ∀ c ∈ r.newName id, c ∉ delimiters := by
  have hall : ∀ c ∈ ['-', '\x7b', '\x7d'], c ∉ delimiters := by decide
  intro c hc
  have hparts : c ∈ r.hash ∨ c ∈ id ∨ c ∈ r.instanceVariable ∨ c ∈ ['-', '\x7b', '\x7d'] := by
    simp only [Renaming.newName, List.cons_append, List.append_assoc, List.mem_cons,
      List.mem_append, List.not_mem_nil, or_false] at hc ⊢
    tauto
  rcases hparts with hc | hc | hc | hc
  · exact (hr.hash c hc).2
  · exact fun hmem => hr.ids id hid c hc (List.mem_cons_of_mem _ hmem)
  · exact (hr.instanceVariable c hc).2
  · exact hall c hc

theorem Renaming.IsHarmless.isData_newName {id : Text} (hid : IsData id) :
    IsData (r.newName id) := by
  have hall : ∀ c ∈ ['-', '\x7b', '\x7d'], isDataChar c = true := by decide
  have hhash : IsData r.hash := .of_forall fun c hc => (hr.hash c hc).1
  have hvariable : IsData r.instanceVariable := .of_forall fun c hc => (hr.instanceVariable c hc).1
  have hend : IsData ['\x7d', '\x7d'] := .of_forall (by decide)
  have h := hhash.append (.char (hall '-' (by decide)) (hid.append (.char (hall '-' (by decide))
    (.char (hall '\x7b' (by decide)) (.char (hall '\x7b' (by decide))
      (hvariable.append hend))))))
  simpa [Renaming.newName] using h

end

theorem parenthesis_mem {c : Char} (h : c ∈ ['(', ')']) : c ≠ '&' ∧ isReferenceChar c = false ∧
    isDataChar c = true ∧ c ∉ delimiters ∧ IsEdge c ∧ c ∈ foreignSigns := by
  unfold IsEdge
  have hall : ∀ c ∈ ['(', ')'], c ≠ '&' ∧ isReferenceChar c = false ∧ isDataChar c = true ∧
      c ∉ delimiters ∧ (c ∈ editSigns ∨ isBlank c = true) ∧ c ∈ foreignSigns := by decide +kernel
  exact hall c h

/-- White space behind an opening parenthesis can go. -/
theorem exchange_parenthesis_blank {ids : List Text} {c : Char} (hc : isBlank c = true) :
    Exchange ids ['(', c] ['('] := by
  obtain ⟨hamp, hreference, hchar, hdelimiter, hedge, hforeign⟩ :=
    parenthesis_mem (c := '(') (by decide)
  have hblank : c ∉ delimiters := fun hmem => not_sign_of_isBlank hc (List.mem_cons_of_mem _ hmem)
  refine Exchange.foreign ⟨'(', by simp, hforeign⟩ ?_ ?_ ?_ ?_ fun a b hdata => ?_
  · exact List.forall_mem_cons.2 ⟨hdelimiter, List.forall_mem_singleton.2 hblank⟩
  · exact List.forall_mem_singleton.2 hdelimiter
  · rintro d ⟨⟩
    exact hedge
  · rintro d ⟨⟩
    exact .inr hc
  · obtain ⟨ha, -, hrest⟩ := IsData.of_append_cons (t := c :: b) hdata hamp hreference
    have hb := (hrest.of_append_cons (s := []) (fun he => not_sign_of_isBlank hc (by simp [he]))
      (isReferenceChar_eq_false_of_isBlank hc)).2.2
    exact ha.append (.char hchar hb)

/-- White space in front of a closing parenthesis can go. -/
theorem exchange_blank_parenthesis {ids : List Text} {c : Char} (hc : isBlank c = true) :
    Exchange ids [c, ')'] [')'] := by
  obtain ⟨-, -, -, hdelimiter, hedge, hforeign⟩ := parenthesis_mem (c := ')') (by decide)
  have hblank : c ∉ delimiters := fun hmem => not_sign_of_isBlank hc (List.mem_cons_of_mem _ hmem)
  refine Exchange.foreign ⟨')', by simp, hforeign⟩ ?_ ?_ ?_ ?_ fun a b hdata => ?_
  · exact List.forall_mem_cons.2 ⟨hblank, List.forall_mem_singleton.2 hdelimiter⟩
  · exact List.forall_mem_singleton.2 hdelimiter
  · rintro d ⟨⟩
    exact .inr hc
  · intro d hd
    obtain rfl : ')' = d := by simpa using hd
    exact hedge
  · obtain ⟨ha, -, hrest⟩ := IsData.of_append_cons (t := ')' :: b) hdata
      (fun he => not_sign_of_isBlank hc (by simp [he])) (isReferenceChar_eq_false_of_isBlank hc)
    exact ha.append hrest

/-- What stands between parentheses may give way to another text without quotes. -/
theorem exchange_parentheses (ids : List Text) {m m' : Text} (hm : ∀ c ∈ m, c ∉ delimiters)
    (hm' : ∀ c ∈ m', c ∉ delimiters) (hdata : IsData m → IsData m') :
    Exchange ids ('(' :: (m ++ [')'])) ('(' :: (m' ++ [')'])) := by
  obtain ⟨hamp, hreference, hchar, hdelimiter, hedge, hforeign⟩ :=
    parenthesis_mem (c := '(') (by decide)
  obtain ⟨hamp', hreference', hchar', hdelimiter', hedge', -⟩ :=
    parenthesis_mem (c := ')') (by decide)
  have hwhole : ∀ {m : Text}, (∀ c ∈ m, c ∉ delimiters) →
      ∀ c ∈ '(' :: (m ++ [')']), c ∉ delimiters := fun hm => List.forall_mem_cons.2
    ⟨hdelimiter, List.forall_mem_append.2 ⟨hm, List.forall_mem_singleton.2 hdelimiter'⟩⟩
  refine Exchange.foreign ⟨'(', by simp, hforeign⟩ (hwhole hm) (hwhole hm') ?_ ?_ fun a b h => ?_
  · rintro d ⟨⟩
    exact hedge
  · rw [← List.cons_append, List.getLast?_concat]
    rintro d ⟨⟩
    exact hedge'
  · have h' : IsData (a ++ '(' :: (m ++ ')' :: b)) := by simpa using h
    obtain ⟨ha, -, hrest⟩ := h'.of_append_cons hamp hreference
    obtain ⟨hm, -, hb⟩ := hrest.of_append_cons hamp' hreference'
    simpa using ha.append (.char hchar ((hdata hm).append (.char hchar' hb)))

/-- What surrounds an identifier in a text that is trimmed to it is white space. -/
theorem not_mem_of_trim_mem {ids : List Text} {v : Text} {cs : Text} (hid : trim v ∈ ids)
    (hids : ∀ id ∈ ids, ∀ c ∈ id, c ∉ cs) (hblank : ∀ c ∈ cs, isBlank c = false) :
    ∀ c ∈ v, c ∉ cs := by
  obtain ⟨x, y, hv, hx, hy⟩ := exists_eq_append_trim v
  intro c hc hmem
  have hnot := hblank c hmem
  rw [hv] at hc
  rcases List.mem_append.1 hc with hc | hc
  · rcases List.mem_append.1 hc with hc | hc
    · rw [hx c hc] at hnot
      cases hnot
    · exact hids _ hid c hc hmem
  · rw [hy c hc] at hnot
    cases hnot

section

variable {r : Renaming} (hr : r.IsHarmless) {lead : Text} {spans : Spans}
  (hsettled : ∀ y ∈ spans, y.1.IsSettled r.ids)

include hsettled

/-- White space in front of a sign can go as a whole if each character of it can. -/
theorem isVersion_of_gapBefore {sign : Char}
    (hsign : ∀ c, isBlank c = true → Exchange r.ids [c, sign] [sign]) {gap : Text}
    (hgap : ∀ c ∈ gap, isBlank c = true) {u v : Text}
    (h : IsVersion lead spans (u ++ (gap ++ sign :: v))) :
    IsVersion lead spans (u ++ sign :: v) := by
  induction gap using List.reverseRecOn with
  | nil => exact h
  | append_singleton gap c ih =>
    rw [List.forall_mem_append] at hgap
    refine ih hgap.1 ?_
    have hexchange : IsVersion lead spans ((u ++ gap) ++ ([sign] ++ v)) :=
      (hsign c (hgap.2 c (by simp))).isVersion hsettled (by simpa using h)
    simpa using hexchange

/-- White space behind a sign can go as a whole if each character of it can. -/
theorem isVersion_of_gapBehind {sign : Char}
    (hsign : ∀ c, isBlank c = true → Exchange r.ids [sign, c] [sign]) {gap : Text}
    (hgap : ∀ c ∈ gap, isBlank c = true) {u v : Text}
    (h : IsVersion lead spans (u ++ sign :: (gap ++ v))) :
    IsVersion lead spans (u ++ sign :: v) := by
  induction gap with
  | nil => exact h
  | cons c gap ih =>
    rw [List.forall_mem_cons] at hgap
    refine ih hgap.2 ?_
    have hexchange : IsVersion lead spans (u ++ ([sign] ++ (gap ++ v))) :=
      (hsign c hgap.1).isVersion hsettled (by simpa using h)
    simpa using hexchange

include hr

/-- A definition may give way to the renamed one. -/
theorem isVersion_definition {a : Attribute} (ha : a.IsProper ['i', 'd']) {u v : Text}
    (h : IsVersion lead spans (u ++ (a.text ++ v))) :
    IsVersion lead spans (u ++ (r.definition a ++ v)) := by
  rw [Renaming.definition]
  split
  · rename_i hid
    have hchars := not_mem_of_trim_mem hid hr.ids (by decide)
    have hquote : a.quote ∈ quotes := by
      simpa [isQuote] using ha.quote_isQuote
    have hbefore := isVersion_of_gapBefore hsettled (fun _ => Exchange.blankBefore)
      ha.gapBefore_blank (u := u ++ ['i', 'd'])
      (v := a.gapAfter ++ (a.quote :: (a.value ++ [a.quote]) ++ v))
      (by simpa [Attribute.text, ha.name_eq] using h)
    have hgaps := isVersion_of_gapBehind hsettled (fun _ => Exchange.blankBehind)
      ha.gapAfter_blank hbefore
    have hexchange : Exchange r.ids _ _ := .quoted hquote
      (fun c hc hmem => hchars c hc (List.mem_cons_of_mem _ hmem)) (hr.newName_chars hid)
      (.inr ⟨hid, fun hmem => hchars _ hmem (List.mem_cons_self ..)⟩)
      (fun hdata => hr.isData_newName (isData_trim hdata))
    have hversion := hexchange.isVersion hsettled (a := u ++ ['i', 'd', '=']) (b := v)
      (by simpa using hgaps)
    simpa using hversion
  · exact h

/-- A reference may give way to the renamed one. -/
theorem isVersion_reference {q : QuotedReference} (hq : q.IsProper) {u v : Text}
    (h : IsVersion lead spans (u ++ (q.text ++ v))) :
    IsVersion lead spans (u ++ (r.reference q ++ v)) := by
  rw [Renaming.reference]
  split
  · rename_i hid
    have hquote : q.quote ∈ quotes := by
      simpa [isQuote] using hq.quote_isQuote
    have hchars : ∀ {w : Text}, (∀ c ∈ w, c ∉ delimiters) → ∀ c ∈ '#' :: w, c ∉ delimiters :=
      fun hw => List.forall_mem_cons.2 ⟨by decide, hw⟩
    have hexchange : Exchange r.ids (q.quote :: ('#' :: q.target ++ [q.quote]))
        (q.quote :: ('#' :: r.newName q.target ++ [q.quote])) := .quoted hquote
      (hchars fun c hc hmem => hr.ids _ hid.1 c hc (List.mem_cons_of_mem _ hmem))
      (hchars (hr.newName_chars hid.1)) (.inl rfl)
      (fun hdata => .char (by decide) (hr.isData_newName (hdata.of_cons (by decide)).2))
    have hversion := hexchange.isVersion hsettled
      (a := u ++ (q.name ++ q.gapBefore ++ '=' :: q.gapAfter)) (b := v)
      (by simpa [QuotedReference.text, QuotedReference.textTo] using h)
    simpa [QuotedReference.textTo] using hversion
  · exact h

/-- An address may give way to the renamed one. -/
theorem isVersion_address {w : UrlReference} (hw : w.IsProper) {u v : Text}
    (h : IsVersion lead spans (u ++ (w.text ++ v))) :
    IsVersion lead spans (u ++ (r.address w ++ v)) := by
  rw [Renaming.address]
  split
  · rename_i hid
    have hchars : ∀ {t : Text}, (∀ c ∈ t, c ∉ delimiters) → ∀ c ∈ '#' :: t, c ∉ delimiters :=
      fun ht => List.forall_mem_cons.2 ⟨by decide, ht⟩
    have htarget := hchars (t := w.target)
      fun c hc hmem => hr.ids _ hid c hc (List.mem_cons_of_mem _ hmem)
    have hnew := hchars (hr.newName_chars hid)
    have hdata : IsData ('#' :: w.target) → IsData ('#' :: r.newName w.target) :=
      fun hdata => .char (by decide) (hr.isData_newName (hdata.of_cons (by decide)).2)
    have hopen := isVersion_of_gapBehind hsettled (fun _ => exchange_parenthesis_blank)
      hw.gapBefore_blank (u := u ++ ['u', 'r', 'l'])
      (v := w.quote.toList ++ '#' :: (w.target ++ (w.quote.toList ++ (w.gapAfter ++ ')' :: v))))
      (by simpa [UrlReference.text] using h)
    have hgaps := isVersion_of_gapBefore hsettled (fun _ => exchange_blank_parenthesis)
      hw.gapAfter_blank (u := u ++ ['u', 'r', 'l', '('] ++ w.quote.toList ++ '#' :: w.target ++
        w.quote.toList) (v := v) (by simpa using hopen)
    cases hquote : w.quote with
    | none =>
      rw [hquote] at hgaps
      have hversion := (exchange_parentheses r.ids htarget hnew hdata).isVersion hsettled
        (a := u ++ ['u', 'r', 'l']) (b := v) (by simpa using hgaps)
      simpa [UrlReference.textTo, hquote] using hversion
    | some q =>
      have hq : q ∈ quotes := by
        simpa [isQuote] using hw.quote_isQuote q hquote
      rw [hquote] at hgaps
      have hexchange : Exchange r.ids _ _ := .quoted hq htarget hnew (.inl rfl) hdata
      have hversion := hexchange.isVersion hsettled (a := u ++ ['u', 'r', 'l', '(']) (b := ')' :: v)
        (by simpa using hgaps)
      simpa [UrlReference.textTo, hquote] using hversion
  · exact h

/-- **Renaming identifiers makes a version of a document.** -/
theorem isVersion_apply {u : Text} (hu : IsVersion lead spans u) :
    IsVersion lead spans (r.apply u) := by
  rw [Renaming.apply]
  split
  · exact hu
  · refine Pattern.replace_of_step (fun _ w _ hw => isVersion_address hr hsettled ?_)
      (Pattern.replace_of_step (fun _ q _ hq => isVersion_reference hr hsettled ?_)
        (Pattern.replace_of_step (fun _ a _ ha => isVersion_definition hr hsettled ?_) hu))
    · obtain ⟨prev, s, rest, hread⟩ := UrlReference.pattern.exists_read_of_mem_tokens hw
      exact UrlReference.isProper_of_read hread
    · obtain ⟨prev, s, rest, hread⟩ := QuotedReference.pattern.exists_read_of_mem_tokens hq
      exact (QuotedReference.isProper_of_read hread).1
    · obtain ⟨prev, s, rest, hread⟩ := idDefinition.exists_read_of_mem_tokens ha
      exact Attribute.isProper_of_read hread

end

end SvgAssets.Markup
