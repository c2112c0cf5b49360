/-
# SvgAssets.Proofs.Markup.ElementPasses -- no later pass makes an element

Behind the removal of elements a document is normalized, its identifiers are renamed, it is
compacted and its root element is taken off. What these passes put in begins with a character that
no tag holds (`edits_normalize`, `keeps_apply`), what they take out are tags, white space between
tags and the ends (`keeps_stripped`, `keeps_joinTags`, `keeps_unwrap`), and compaction keeps the
names of tags (`not_holdsElement_compactTags`). So where tags are whole and names have no white
space in front of them, no element comes into being (`not_holdsElement_unwrap_compact`).
-/
import SvgAssets.Proofs.Markup.Compaction
import SvgAssets.Proofs.Markup.Renaming
import SvgAssets.Proofs.Markup.TagNames
import SvgAssets.Template.Declaration

namespace SvgAssets.Markup

open Text

/-! ## Texts that are exchanged -/

/-- Declarations lose their defaults and the white space around their names. -/
theorem edits_normalize (s : Text) : Edits barriers angles s (Template.normalize s) := by
  refine Pattern.rel_replaceFrom .nil Edits.append (fun c => .refl [c]) ?_ none s
  intro prev s d rest _
  show Edits barriers angles d.text d.reference
  obtain ⟨v, w, hpath, -, -⟩ := exists_eq_append_trim d.pathText
  have hback : Edits barriers angles (w ++ ['\x7d', '\x7d'] ++ []) ('\x7d' :: ['\x7d'] ++ []) :=
    .exchange _ (by decide) (forall_mem_of_all rfl) .nil
  have hwhole : Edits barriers angles
      ('\x7b' :: '\x7b' :: (d.written ++ '|' :: v) ++
        (trim d.pathText ++ (w ++ ['\x7d', '\x7d'] ++ [])))
      ('\x7b' :: ['\x7b'] ++ (trim d.pathText ++ ('\x7d' :: ['\x7d'] ++ []))) :=
    .exchange _ (by decide) (forall_mem_of_all rfl) ((Edits.refl _).append hback)
  have htext : d.text = '\x7b' :: '\x7b' :: (d.written ++ '|' :: v) ++
      (trim d.pathText ++ (w ++ ['\x7d', '\x7d'])) := by
    rw [Template.Declaration.text]
    conv => lhs; rw [hpath]
    simp
  rw [htext]
  simpa [Template.Declaration.reference, Template.Declaration.path] using hwhole

theorem not_mem_angles_of_isQuote {c : Char} (h : isQuote c = true) : c ∉ angles := by
  intro hmem
  have hall : ∀ d ∈ angles, isQuote d = false := forall_mem_of_all rfl
  rw [hall c hmem] at h
  cases h

section

variable {r : Renaming} (hhash : ∀ c ∈ r.hash, c ∉ angles)
  (hvariable : ∀ c ∈ r.instanceVariable, c ∉ angles)

include hhash hvariable

/-- A name stays between what is put in front of it and behind it. -/
theorem edits_newName {c : Char} {m m' : Text} (u w id : Text) (hc : c ∈ barriers)
    (hm : ∀ d ∈ c :: m, d ∉ angles) (hm' : ∀ d ∈ m', d ∉ angles) :
    Edits barriers angles (u ++ (id ++ w)) (c :: m ++ (r.newName id ++ m')) := by
  have hfront : ∀ d ∈ c :: (m ++ (r.hash ++ ['-'])), d ∉ angles := by
    rw [List.forall_mem_cons] at hm ⊢
    have hhyphen := List.forall_mem_append.2 ⟨hhash, forall_mem_of_all (s := ['-']) rfl⟩
    exact ⟨hm.1, List.forall_mem_append.2 ⟨hm.2, hhyphen⟩⟩
  have hback : ∀ d ∈ '-' :: ('\x7b' :: '\x7b' :: (r.instanceVariable ++ '\x7d' :: '\x7d' :: m')),
      d ∉ angles := by
    simp only [List.forall_mem_cons, List.forall_mem_append]
    exact ⟨by decide, by decide, by decide, hvariable, by decide, by decide, hm'⟩
  have hend : Edits barriers angles (w ++ [])
      ('-' :: '\x7b' :: '\x7b' :: (r.instanceVariable ++ '\x7d' :: '\x7d' :: m') ++ []) :=
    .exchange w (by decide) hback .nil
  have hwhole := Edits.exchange u hc hfront ((Edits.refl id).append hend)
  simpa [Renaming.newName] using hwhole

theorem edits_definition (s : Text) :
    Edits barriers angles s (idDefinition.replace r.definition s) := by
  refine Pattern.rel_replaceFrom .nil Edits.append (fun c => .refl [c]) ?_ none s
  intro prev s a rest hread
  show Edits barriers angles a.text (r.definition a)
  have ha : a.IsProper ['i', 'd'] := Attribute.isProper_of_read hread
  have hquote := not_mem_angles_of_isQuote ha.quote_isQuote
  by_cases hid : trim a.value ∈ r.ids
  · obtain ⟨v, w, hvalue, -, -⟩ := exists_eq_append_trim a.value
    have hname : Edits barriers angles
        (a.gapBefore ++ '=' :: (a.gapAfter ++ a.quote :: v) ++ (trim a.value ++ (w ++ [a.quote])))
        ('=' :: [a.quote] ++ (r.newName (trim a.value) ++ [a.quote])) :=
      edits_newName hhash hvariable _ _ _ (by decide) (by simpa using hquote)
        (by simpa using hquote)
    have hnew : r.definition a =
        ['i', 'd'] ++ ('=' :: [a.quote] ++ (r.newName (trim a.value) ++ [a.quote])) := by
      simp [Renaming.definition, hid]
    have hold : a.text = ['i', 'd'] ++ (a.gapBefore ++ '=' :: (a.gapAfter ++ a.quote :: v) ++
        (trim a.value ++ (w ++ [a.quote]))) := by
      rw [Attribute.text, ha.name_eq]
      conv => lhs; rw [hvalue]
      simp
    rw [hnew, hold]
    exact (Edits.refl ['i', 'd']).append hname
  · rw [Renaming.definition, if_neg hid]
    exact .refl _

theorem edits_reference (s : Text) :
    Edits barriers angles s (QuotedReference.pattern.replace r.reference s) := by
  refine Pattern.rel_replaceFrom .nil Edits.append (fun c => .refl [c]) ?_ none s
  intro prev s q rest hread
  show Edits barriers angles q.text (r.reference q)
  have hquote := not_mem_angles_of_isQuote (QuotedReference.isProper_of_read hread).1.quote_isQuote
  unfold Renaming.reference
  split
  · have hname : Edits barriers angles (['#'] ++ (q.target ++ [q.quote]))
        (['#'] ++ (r.newName q.target ++ [q.quote])) :=
      edits_newName hhash hvariable _ _ _ (by decide) (forall_mem_of_all rfl)
        (by simpa using hquote)
    have hwhole := (Edits.refl (q.name ++ q.gapBefore ++ '=' :: q.gapAfter ++ [q.quote])).append
      hname
    simpa [QuotedReference.text, QuotedReference.textTo] using hwhole
  · exact .refl _

theorem edits_applyToAddresses (s : Text) :
    Edits barriers angles s (r.applyToAddresses s) := by
  refine Pattern.rel_replaceFrom .nil Edits.append (fun c => .refl [c]) ?_ none s
  intro prev s u rest hread
  show Edits barriers angles u.text (r.address u)
  have hproper := UrlReference.isProper_of_read hread
  have hquote : ∀ c ∈ u.quote.toList, c ∉ angles := fun c hc =>
    not_mem_angles_of_isQuote (hproper.quote_isQuote c (by simpa using hc))
  unfold Renaming.address
  split
  · have hname : Edits barriers angles
        ('(' :: (u.gapBefore ++ u.quote.toList ++ ['#']) ++
          (u.target ++ (u.quote.toList ++ (u.gapAfter ++ [')']))))
        ('(' :: (u.quote.toList ++ ['#']) ++ (r.newName u.target ++ (u.quote.toList ++ [')']))) :=
      edits_newName hhash hvariable _ _ _ (by decide)
        (List.forall_mem_cons.2
          ⟨by decide, List.forall_mem_append.2 ⟨hquote, forall_mem_of_all rfl⟩⟩)
        (List.forall_mem_append.2 ⟨hquote, forall_mem_of_all rfl⟩)
    have hwhole := (Edits.refl ['u', 'r', 'l']).append hname
    simpa [UrlReference.text, UrlReference.textTo] using hwhole
  · exact .refl _

end

/-! ## Words through the passes -/

variable {name : Text}

theorem keeps_of_edits (hname : IsTagName name) {s t : Text} (h : Edits barriers angles s t) :
    Keeps (IsWord name) s t :=
  h.keeps (fun _ hw => hw.exists_cons hname) fun _ hw => hw.not_barrier hname

/-- Renaming makes no word if nothing that is put in holds a bracket. -/
theorem keeps_apply (hname : IsTagName name) {r : Renaming} (hhash : ∀ c ∈ r.hash, c ∉ angles)
    (hvariable : ∀ c ∈ r.instanceVariable, c ∉ angles) (s : Text) :
    Keeps (IsWord name) s (r.apply s) := by
  rw [r.apply_eq]
  exact ((keeps_of_edits hname (edits_definition hhash hvariable s)).trans
    (keeps_of_edits hname (edits_reference hhash hvariable _))).trans
      (keeps_of_edits hname (edits_applyToAddresses hhash hvariable _))

theorem keeps_removeElements (hname : IsTagName name) (other : Text) {s : Text}
    (hs : HasWholeTags name s) : Keeps (IsWord name) s (removeElements other s) := by
  have hblocks : Keeps (IsWord name) s ((Block.pattern other).erase s) :=
    hs.keeps_eraseFrom hname (fun _ => rfl) none
  exact hblocks.trans ((hs.of_keeps hblocks).keeps_eraseFrom hname (fun _ => rfl) none)

theorem keeps_stripped (hname : IsTagName name) {s : Text} (hs : HasWholeTags name s) :
    Keeps (IsWord name) s (stripped s) := by
  have hcomments : Keeps (IsWord name) s (comment.erase s) :=
    hs.keeps_eraseFrom hname (fun _ => rfl) none
  have hprologs : Keeps (IsWord name) (comment.erase s) (Prolog.pattern.erase (comment.erase s)) :=
    (hs.of_keeps hcomments).keeps_eraseFrom hname (fun _ => rfl) none
  have hboth := hcomments.trans hprologs
  exact hboth.trans ((hs.of_keeps hboth).keeps_eraseFrom hname (fun _ => rfl) none)

/-! ## Joined tags -/

/-- White space goes only where a tag has ended. -/
theorem exists_of_joinTags_append {s u b : Text} {c : Char} (hu : '>' ∉ u)
    (h : joinTags false s = u ++ c :: b) :
    ∃ b' behindTag, s = u ++ c :: b' ∧ joinTags behindTag b' = b := by
  induction u generalizing s with
  | nil =>
    cases s with
    | nil => cases h
    | cons d s =>
      rw [joinTags, Bool.and_false, Bool.false_and, if_neg Bool.false_ne_true] at h
      obtain ⟨rfl, rfl⟩ := List.cons.inj h
      exact ⟨s, _, rfl, rfl⟩
  | cons e u ih =>
    rw [List.mem_cons, not_or] at hu
    cases s with
    | nil => cases h
    | cons d s =>
      rw [joinTags, Bool.and_false, Bool.false_and, if_neg Bool.false_ne_true] at h
      rw [List.cons_append, List.cons.injEq] at h
      obtain ⟨rfl, h⟩ := h
      have hflag : (d == '>') = false := by
        rw [beq_eq_false_iff_ne]
        exact Ne.symm hu.1
      rw [hflag] at h
      obtain ⟨b', behindTag, rfl, hb⟩ := ih hu.2 h
      exact ⟨b', behindTag, rfl, hb⟩

/-- A character that is kept stood there, and the text behind it is joined behind it. -/
theorem exists_of_joinTags_eq {behindTag : Bool} {s a b : Text} {c : Char}
    (h : joinTags behindTag s = a ++ c :: b) :
    ∃ a' b', s = a' ++ c :: b' ∧ joinTags (c == '>') b' = b := by
  induction s generalizing behindTag a with
  | nil => simp [joinTags] at h
  | cons d s ih =>
    rw [joinTags] at h
    split at h
    · obtain ⟨a', b', rfl, hb⟩ := ih h
      exact ⟨d :: a', b', rfl, hb⟩
    · cases a with
      | nil =>
        obtain ⟨rfl, rfl⟩ := List.cons.inj h
        exact ⟨[], s, rfl, rfl⟩
      | cons e a =>
        rw [List.cons_append, List.cons.injEq] at h
        obtain ⟨rfl, h⟩ := h
        obtain ⟨a', b', rfl, hb⟩ := ih h
        exact ⟨d :: a', b', rfl, hb⟩

theorem keeps_joinTags (hname : IsTagName name) (s : Text) :
    Keeps (IsWord name) s (joinTags false s) := by
  refine keeps_of_step (R := fun s t => ∃ behindTag, joinTags behindTag s = t) ?_ ⟨false, rfl⟩
  rintro s a w b hw ⟨behindTag, h⟩
  cases hw with
  | bracket =>
    obtain ⟨a', b', rfl, hb⟩ := exists_of_joinTags_eq h
    exact ⟨a', b', rfl, _, hb⟩
  | @stopped u c hu hc =>
    obtain ⟨v, rfl, hv⟩ := hu.exists_cons hname
    have hbracket : '>' ∉ v := fun hmem => (hv '>' hmem).1 (by decide)
    rw [List.append_assoc] at h
    obtain ⟨a', b', rfl, hb⟩ := exists_of_joinTags_eq h
    obtain ⟨b'', behindTag', rfl, hb'⟩ := exists_of_joinTags_append hbracket hb
    exact ⟨a', b'', by simp, behindTag', hb'⟩

/-! ## Names of tags -/

theorem isUnfinished_bracket (hname : IsTagName name) : IsUnfinished name ['<'] :=
  ⟨by simp, name ++ ['>'], by simp, .opening hname.isForm (.inr rfl)⟩

theorem isUnfinished_slash (hname : IsTagName name) : IsUnfinished name ['<', '/'] := by
  have hclosing : IsTagWord name (CloseTag.text ⟨name, []⟩) := .closing ⟨hname.isForm, by simp⟩
  exact ⟨by simp, name ++ ['>'], by simp, by simpa [CloseTag.text] using hclosing⟩

/-- No white space stands where the name of a tag would, behind the bracket or the slash. -/
structure IsUnspaced (s : Text) : Prop where
  bracket : ∀ c, isBlank c = true → ¬ ['<', c] <:+: s
  slash : ∀ c, isBlank c = true → ¬ ['<', '/', c] <:+: s

theorem IsUnspaced.of_keeps (hname : IsTagName name) {s t : Text} (hs : IsUnspaced s)
    (h : Keeps (IsWord name) s t) : IsUnspaced t where
  bracket c hc hmem := hs.bracket c hc
    (h.isInfix (.stopped (isUnfinished_bracket hname) (.inl hc)) hmem)
  slash c hc hmem := hs.slash c hc
    (h.isInfix (.stopped (isUnfinished_slash hname) (.inl hc)) hmem)

theorem IsUnspaced.of_isInfix {s t : Text} (hs : IsUnspaced s) (h : t <:+: s) : IsUnspaced t where
  bracket c hc hmem := hs.bracket c hc (hmem.trans h)
  slash c hc hmem := hs.slash c hc (hmem.trans h)

/-- Only the white space of the text matters. -/
theorem isUnspaced_of_forall_mem {s : Text}
    (h : ∀ c ∈ s, isBlank c = true → ¬ ['<', c] <:+: s ∧ ¬ ['<', '/', c] <:+: s) :
    IsUnspaced s where
  bracket c hc hmem := (h c (hmem.subset (by simp)) hc).1 hmem
  slash c hc hmem := (h c (hmem.subset (by simp)) hc).2 hmem

/-- What stands behind a bracket begins with no white space, and with none behind a slash. -/
theorem IsUnspaced.inner {s w : Text} (hs : IsUnspaced s) (h : '<' :: w <:+: s) :
    (∀ c ∈ w.head?, isBlank c = false) ∧ ∀ c, isBlank c = true → ¬ ['/', c] <+: w := by
  refine ⟨fun c hc => ?_, fun c hc hprefix => ?_⟩
  · rw [← Bool.not_eq_true]
    intro hblank
    obtain ⟨w, rfl⟩ := List.head?_eq_some_iff.1 hc
    exact hs.bracket c hblank (List.IsInfix.trans (List.prefix_append ['<', c] w).isInfix h)
  · obtain ⟨w, rfl⟩ := hprefix
    exact hs.slash c hc (List.IsInfix.trans (List.prefix_append ['<', '/', c] w).isInfix h)

/-! ## Compacted tags -/

theorem eq_false_of_not_mem_angles {c : Char} (h : c ∉ angles) : (c != '<' && c != '>') = true := by
  simpa [angles] using h

/-- The first bracket that ends a tag stays where it is. -/
theorem exists_of_compactTags_closing {s x z : Text} (hx : '>' ∉ x)
    (h : compactTags s = x ++ '>' :: z) :
    ∃ x' s', s = x' ++ '>' :: s' ∧ '>' ∉ x' ∧ compactTags s' = z := by
  have hne : ∀ {w : Text}, '>' ∉ w → ∀ c ∈ w, (c != '>') = true := by
    intro w hw c hc
    simpa using ne_of_mem_of_not_mem hc hw
  induction s using compactTags_induct generalizing x with
  | nil =>
    rw [compactTags_nil] at h
    simp at h
  | tag t rest ht _ =>
    have hinner : '>' ∉ '<' :: compactTag t.inner := by
      rw [List.mem_cons, not_or]
      exact ⟨by decide, fun hmem => absurd (ht.compactTag_chars _ hmem) (by decide)⟩
    rw [compactTags_text_append ht, AnyTag.compacted, List.append_assoc, List.singleton_append] at h
    obtain ⟨-, -, rfl⟩ := eq_of_append_eq_append (hne hinner) (hne hx) (by decide) (by decide) h
    refine ⟨'<' :: t.inner, rest, by simp [AnyTag.text], ?_, rfl⟩
    rw [List.mem_cons, not_or]
    exact ⟨by decide, ht.gt_notMem⟩
  | char c s hnone ih =>
    rw [compactTags_of_none hnone] at h
    cases x with
    | nil =>
      obtain ⟨rfl, rfl⟩ := List.cons.inj h
      exact ⟨[], s, rfl, by simp, rfl⟩
    | cons d x =>
      rw [List.mem_cons, not_or] at hx
      rw [List.cons_append, List.cons.injEq] at h
      obtain ⟨rfl, h⟩ := h
      obtain ⟨x', s', rfl, hx', hz⟩ := ih hx.2 h
      exact ⟨c :: x', s', rfl, by rw [List.mem_cons, not_or]; exact ⟨hx.1, hx'⟩, hz⟩

/-- Where a bracket opens, a tag was compacted, or nothing was read. -/
theorem exists_of_compactTags_opening {s a b : Text} (h : compactTags s = a ++ '<' :: b) :
    ∃ a' s', s = a' ++ '<' :: s' ∧ (compactTags s' = b ∨ ∃ (t : AnyTag) (rest : Text),
      t.IsProper ∧ s' = t.inner ++ '>' :: rest ∧
        b = compactTag t.inner ++ '>' :: compactTags rest) := by
  induction s using compactTags_induct generalizing a with
  | nil =>
    rw [compactTags_nil] at h
    simp at h
  | tag t rest ht ih =>
    rw [compactTags_text_append ht, AnyTag.compacted, List.append_assoc, List.singleton_append,
      List.cons_append] at h
    cases a with
    | nil =>
      obtain ⟨-, rfl⟩ := List.cons.inj h
      exact ⟨[], t.inner ++ '>' :: rest, by simp [AnyTag.text], .inr ⟨t, rest, ht, rfl, rfl⟩⟩
    | cons d a =>
      rw [List.cons_append, List.cons.injEq] at h
      have hinner : '<' ∉ compactTag t.inner ++ ['>'] := by
        rw [List.mem_append, not_or]
        exact ⟨fun hmem => absurd (ht.compactTag_chars _ hmem) (by decide), by decide⟩
      have hbehind : compactTag t.inner ++ ['>'] ++ compactTags rest = a ++ '<' :: b := by
        simpa using h.2
      obtain ⟨a, rfl, hrest⟩ := exists_of_append_eq hinner hbehind
      obtain ⟨a', s', rfl, hb⟩ := ih hrest
      exact ⟨t.text ++ a', s', by simp, hb⟩
  | char c s hnone ih =>
    rw [compactTags_of_none hnone] at h
    cases a with
    | nil =>
      obtain ⟨rfl, rfl⟩ := List.cons.inj h
      exact ⟨[], s, rfl, .inl rfl⟩
    | cons d a =>
      rw [List.cons_append, List.cons.injEq] at h
      obtain ⟨rfl, h⟩ := h
      obtain ⟨a', s', rfl, hb⟩ := ih h
      exact ⟨c :: a', s', rfl, hb⟩

theorem head?_compactTags (s : Text) : (compactTags s).head? = s.head? := by
  cases s with
  | nil => rw [compactTags_nil]
  | cons c s =>
    by_cases hc : c = '<'
    · rw [hc, head?_compactTags_cons, List.head?_cons]
    · rw [compactTags_cons_of_ne hc, List.head?_cons, List.head?_cons]

/-- A tag that breaks off broke off before. -/
theorem hasWholeTags_compactTags (hname : IsTagName name) {s : Text} (hs : HasWholeTags name s) :
    HasWholeTags name (compactTags s) := by
  rintro u hu ⟨a, b, h⟩
  obtain ⟨v, rfl, hv⟩ := hu.exists_cons hname
  have hangle : ∀ c ∈ v, (c != '<' && c != '>') = true :=
    fun c hc => eq_false_of_not_mem_angles (hv c hc).1
  have hopens : compactTags s = a ++ '<' :: (v ++ '<' :: b) := by
    simpa using h.symm
  obtain ⟨a', s', rfl, hplain | ⟨t, rest, ht, -, htag⟩⟩ := exists_of_compactTags_opening hopens
  · have hopening : '<' ∉ v := fun hmem => absurd (hangle _ hmem) (by decide)
    obtain ⟨t, rfl, ht⟩ := exists_of_compactTags_eq hopening hplain
    have hhead := head?_compactTags t
    rw [ht, List.head?_cons] at hhead
    obtain ⟨t, rfl⟩ := List.head?_eq_some_iff.1 hhead.symm
    exact hs _ hu ⟨a', t, by simp⟩
  · obtain ⟨-, hc, -⟩ :=
      eq_of_append_eq_append hangle ht.compactTag_chars (by decide) (by decide) htag
    exact absurd hc (by decide)

/-- A closing tag stood there before, its name followed by white space perhaps. -/
theorem exists_closeTag_of_compactTags (hname : IsTagName name) {s : Text} (hs : IsUnspaced s)
    {v : CloseTag} (hv : v.IsProper name) (h : v.text <:+: compactTags s) :
    ∃ v' : CloseTag, v'.IsProper name ∧ v'.text <:+: s := by
  obtain ⟨a, z, h⟩ := h
  have hinside : ∀ c ∈ '/' :: (v.name ++ v.gap), (c != '<' && c != '>') = true :=
    fun c hc => eq_false_of_not_mem_angles (hv.inside_chars hname c hc).1
  have hopens : compactTags s = a ++ '<' :: ('/' :: (v.name ++ v.gap) ++ '>' :: z) := by
    simpa [CloseTag.text] using h.symm
  obtain ⟨a', s', rfl, hplain | ⟨t, rest, ht, rfl, htag⟩⟩ := exists_of_compactTags_opening hopens
  · have hopening : '<' ∉ '/' :: (v.name ++ v.gap) ++ ['>'] := by
      rw [List.mem_append, not_or]
      exact ⟨fun hmem => absurd (hinside _ hmem) (by decide), by decide⟩
    obtain ⟨t, rfl, -⟩ := exists_of_compactTags_eq (u := z) hopening (by simpa using hplain)
    exact ⟨v, hv, a', t, by simp [CloseTag.text]⟩
  · obtain ⟨htag, -, -⟩ :=
      eq_of_append_eq_append hinside ht.compactTag_chars (by decide) (by decide) htag
    obtain ⟨hhead, hslash⟩ := hs.inner (w := t.inner) ⟨a', '>' :: rest, by simp⟩
    obtain ⟨gap, hinner, hgap⟩ := exists_of_compactTag_eq_slash
      (hname.not_boundary v.name hv.isForm) hhead hslash htag.symm hv.gap_blank
    exact ⟨⟨v.name, gap⟩, ⟨hv.isForm, hgap⟩, a', rest, by simp [CloseTag.text, hinner]⟩

/-- **Compacting tags makes no element** where no white space stands in front of names. -/
theorem not_holdsElement_compactTags (hname : IsTagName name) {s : Text} (hs : IsUnspaced s)
    (h : ¬ HoldsElement name s) : ¬ HoldsElement name (compactTags s) := by
  rintro ⟨t, v, a, z, htext, hform, hadmits, hv, hwithin⟩
  obtain ⟨o, z', ho, hoadmits, hotext, hsuffix⟩ := exists_proper hform hadmits z
  have hbehind := hwithin.trans hsuffix.isInfix
  have hopens : compactTags s = a ++ '<' :: (o.name ++ (o.attributes ++ '>' :: z')) := by
    rw [htext, hotext]
    simp [OpenTag.text]
  obtain ⟨a', s', rfl, hplain | ⟨t, rest, ht, rfl, htag⟩⟩ := exists_of_compactTags_opening hopens
  · -- The tag is no tag to compaction, which left it as it was.
    have hopening : '<' ∉ o.name :=
      fun hmem => (hname.form_chars ho.isForm '<' hmem).1 (by decide)
    obtain ⟨s₁, rfl, hs₁⟩ := exists_of_compactTags_eq hopening hplain
    obtain ⟨x, s₂, rfl, hx, rfl⟩ := exists_of_compactTags_closing ho.attributes_chars hs₁
    have hadmits' : Attributes.admitsAny x = true := by
      rw [Attributes.admitsAny_iff] at hoadmits ⊢
      intro c hc
      have hhead := head?_compactTags (x ++ '>' :: s₂)
      rw [hs₁, List.head?_append, List.head?_append, Option.mem_def.1 hc, Option.some_or] at hhead
      cases hattributes : o.attributes with
      | nil =>
        rw [hattributes] at hhead
        cases hhead
        exact absurd (List.mem_of_head? hc) hx
      | cons d w =>
        rw [hattributes] at hhead hoadmits
        cases hhead
        exact hoadmits c rfl
    have hs₂ : IsUnspaced s₂ := hs.of_isInfix ⟨a' ++ '<' :: (o.name ++ (x ++ ['>'])), [], by simp⟩
    obtain ⟨v', hv', hwithin'⟩ := exists_closeTag_of_compactTags hname hs₂ hv hbehind
    exact h ⟨⟨o.name, x⟩, v', a', s₂, by simp [OpenTag.text], ho.isForm, hadmits', hv', hwithin'⟩
  · have hinside : ∀ c ∈ o.name ++ o.attributes, (c != '>') = true :=
      fun c hc => not_bracket_of_mem hname ho c (List.mem_cons_of_mem '<' hc)
    have hcompact : ∀ c ∈ compactTag t.inner, (c != '>') = true :=
      fun c hc => (Bool.and_eq_true_iff.1 (ht.compactTag_chars c hc)).2
    rw [← List.append_assoc] at htag
    obtain ⟨hsame, -, rfl⟩ :=
      eq_of_append_eq_append hinside hcompact (by decide) (by decide) htag
    obtain ⟨hhead, -⟩ := hs.inner (w := t.inner) ⟨a', '>' :: rest, by simp⟩
    obtain ⟨x, hinner, hx⟩ := exists_of_compactTag_eq (hname.not_boundary o.name ho.isForm) hhead
      hsame.symm hoadmits
    have hrest : IsUnspaced rest := hs.of_isInfix ⟨a' ++ '<' :: (t.inner ++ ['>']), [], by simp⟩
    obtain ⟨v', hv', hwithin'⟩ := exists_closeTag_of_compactTags hname hrest hv hbehind
    exact h ⟨⟨o.name, x⟩, v', a', rest, by simp [OpenTag.text, hinner], ho.isForm, hx, hv',
      hwithin'⟩

/-! ## The root element -/

theorem keeps_unwrap {s : Text} (hs : HasWholeTags name s) :
    Keeps (IsWord name) s (unwrap s) := by
  have hstart : trimStart s <:+: s := (List.dropWhile_suffix _).isInfix
  dsimp only [unwrap]
  split
  · exact .of_isInfix hstart
  · rename_i root rest hread
    have hrest : rest <:+: s := by
      refine List.IsInfix.trans ⟨root.text, [], ?_⟩ hstart
      rw [List.append_nil]
      exact (rootOpening.exact hread).symm
    have hlast : Keeps (IsWord name) rest (rootClosing.eraseLast rest) :=
      rootClosing.keeps_eraseLast (fun _ => rfl) fun w hw => hw.isUnbroken (hs.of_isInfix hrest)
    exact ((Keeps.of_isInfix hrest).trans hlast).trans (.of_isInfix dropAround_isInfix)

/-! ## Compacted documents -/

/-- **The last two passes over a document make no element** where tags are whole and no white space
stands in front of their names. -/
theorem not_holdsElement_unwrap_compact (hname : IsTagName name) {s : Text}
    (hwhole : HasWholeTags name s) (hspace : IsUnspaced s) (h : ¬ HoldsElement name s) :
    ¬ HoldsElement name (unwrap (compact s)) := by
  have hstripped := keeps_stripped hname hwhole
  have hjoined := hstripped.trans (keeps_joinTags hname (stripped s))
  have hnone := not_holdsElement_compactTags hname (hspace.of_keeps hname hjoined)
    fun hold => h (holdsElement_of_keeps hjoined hold)
  have hcompacted := hasWholeTags_compactTags hname (hwhole.of_keeps hjoined)
  rw [compact_eq]
  have htrim : trim (compactTags (joinTags false (stripped s))) <:+:
      compactTags (joinTags false (stripped s)) := dropAround_isInfix
  refine fun hold => hnone (holdsElement_of_keeps (Keeps.trans (.of_isInfix htrim) ?_) hold)
  exact keeps_unwrap (hcompacted.of_isInfix htrim)

end SvgAssets.Markup
