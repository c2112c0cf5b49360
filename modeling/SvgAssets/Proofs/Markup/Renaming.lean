/-
# SvgAssets.Proofs.Markup.Renaming -- renaming is one set of edits

Identifiers are renamed in three passes, and each reads what the one before has written. This module
shows that it might as well have read the original text: the places that are renamed are those where
the three kinds of token stand in the original, no two of them overlap, and all else is left alone
(`apply_eq_applyEdits`). The passes do not disturb each other because what one has changed is an
attribute, and the next spares it.
-/
import SvgAssets.Proofs.Markup.Assignments

namespace SvgAssets.Markup

open Text

/-! ## Identifiers as wholes -/

/-- `v` stands in `s` between two marks, so it is no part of a longer identifier there. -/
def StandsAlone (v s : Text) : Prop :=
  ∃ before c d behind, s = before ++ c :: (v ++ d :: behind) ∧ isMark c = true ∧ isMark d = true

/-- White space between the marks and the text makes no difference. -/
theorem standsAlone_of_blank {g v w : Text} {c d : Char} (before behind : Text)
    (hc : isMark c = true) (hg : ∀ x ∈ g, isBlank x = true) (hw : ∀ x ∈ w, isBlank x = true)
    (hd : isMark d = true) :
    StandsAlone v (before ++ c :: (g ++ v ++ (w ++ d :: behind))) := by
  have left : ∃ before' c', before ++ c :: g = before' ++ [c'] ∧ isMark c' = true := by
    rcases List.eq_nil_or_concat g with rfl | ⟨g, x, rfl⟩
    · exact ⟨before, c, rfl, hc⟩
    · exact ⟨before ++ c :: g, x, by simp, isMark_of_isBlank (hg x (by simp))⟩
  have right : ∃ d' behind', w ++ d :: behind = d' :: behind' ∧ isMark d' = true := by
    cases w with
    | nil => exact ⟨d, behind, rfl, hd⟩
    | cons x w => exact ⟨x, w ++ d :: behind, rfl, isMark_of_isBlank (hw x (by simp))⟩
  obtain ⟨before', c', hb, hc'⟩ := left
  obtain ⟨d', behind', hd', hm⟩ := right
  refine ⟨before', c', d', behind', ?_, hc', hm⟩
  rw [hd', List.append_assoc, ← List.cons_append, ← List.append_assoc, hb]
  simp

namespace Renaming

/-! ## What is renamed where -/

/-- No mark occurs in the identifiers or in what is added to them. -/
structure IsPlain (r : Renaming) : Prop where
  ids : ∀ v ∈ r.ids, ∀ c ∈ v, isMark c = false
  hash : ∀ c ∈ r.hash, isMark c = false
  instanceVariable : ∀ c ∈ r.instanceVariable, isMark c = false

/-- Nothing but letters, numbers and underscores is added to the identifiers. -/
theorem IsPlain.of_isWordChar {r : Renaming} (hids : ∀ v ∈ r.ids, ∀ c ∈ v, isMark c = false)
    (hhash : ∀ c ∈ r.hash, isWordChar c = true)
    (hvariable : ∀ c ∈ r.instanceVariable, isWordChar c = true) : r.IsPlain where
  ids := hids
  hash c hc := isMark_eq_false_of_isWordChar (hhash c hc)
  instanceVariable c hc := isMark_eq_false_of_isWordChar (hvariable c hc)

/-- The new text of a definition whose identifier is renamed. -/
def newDefinition (r : Renaming) (a : Attribute) : Option Text :=
  if trim a.value ∈ r.ids then
    some (['i', 'd', '='] ++ a.quote :: r.newName (trim a.value) ++ [a.quote])
  else none

/-- The new text of an attribute that refers to a renamed identifier. -/
def newReference (r : Renaming) (q : QuotedReference) : Option Text :=
  if q.target ∈ r.ids ∧ lower q.name ∉ paintAttributes then
    some (q.textTo (r.newName q.target))
  else none

/-- The new text of an address that refers to a renamed identifier. -/
def newAddress (r : Renaming) (u : UrlReference) : Option Text :=
  if u.target ∈ r.ids then some (u.textTo (r.newName u.target)) else none

/-- The edits of a renaming. The three kinds of token are looked up in the same text, the one that
is to be renamed. -/
def edits (r : Renaming) (s : Text) : List Edit :=
  idDefinition.editsOf r.newDefinition s ++ QuotedReference.pattern.editsOf r.newReference s ++
    UrlReference.pattern.editsOf r.newAddress s

variable (r : Renaming)

theorem definition_eq (a : Attribute) : r.definition a = (r.newDefinition a).getD a.text := by
  by_cases h : trim a.value ∈ r.ids <;> simp [definition, newDefinition, h]

theorem reference_eq (q : QuotedReference) :
    r.reference q = (r.newReference q).getD q.text := by
  unfold reference newReference
  split <;> rfl

theorem address_eq (u : UrlReference) : r.address u = (r.newAddress u).getD u.text := by
  unfold address newAddress
  split <;> rfl

/-- Without identifiers the three passes change nothing, so they need not be left out. -/
theorem apply_eq (s : Text) :
    r.apply s = UrlReference.pattern.replace r.address
      (QuotedReference.pattern.replace r.reference (idDefinition.replace r.definition s)) := by
  unfold apply
  split
  · rename_i hids
    rw [List.isEmpty_iff] at hids
    have hd : r.definition = idDefinition.text := by
      funext a
      simp [definition, hids]
      rfl
    have hq : r.reference = QuotedReference.pattern.text := by
      funext q
      simp [reference, hids]
      rfl
    have hu : r.address = UrlReference.pattern.text := by
      funext u
      simp [address, hids]
      rfl
    rw [hd, hq, hu, Pattern.replace_text, Pattern.replace_text, Pattern.replace_text]
  · rfl

variable {r}

/-! ## What the passes change -/

theorem not_isMark_of_mem_newName (hr : r.IsPlain) {v : Text} (hv : v ∈ r.ids) {c : Char}
    (hc : c ∈ r.newName v) : isMark c = false := by
  simp only [newName, List.mem_append, List.mem_cons, List.not_mem_nil, or_false] at hc
  rcases hc with ((hc | rfl | hc) | rfl | rfl | rfl | hc) | rfl | rfl
  · exact hr.hash c hc
  · rfl
  · exact hr.ids v hv c hc
  · rfl
  · rfl
  · rfl
  · exact hr.instanceVariable c hc
  · rfl
  · rfl

theorem isPlainChar_of_mem_value (hr : r.IsPlain) {value : Text} (h : trim value ∈ r.ids) :
    ∀ c ∈ value, isPlainChar c = true := by
  intro c hc
  obtain ⟨v, w, hvw, hv, hw⟩ := exists_eq_append_trim value
  rw [hvw, List.mem_append, List.mem_append] at hc
  rcases hc with (hc | hc) | hc
  · simp [isPlainChar, hv c hc]
  · simp [isPlainChar, hr.ids _ h c hc]
  · simp [isPlainChar, hw c hc]

/-- A definition that is renamed has a plain value, before and after. -/
theorem definition_isAssignment (hr : r.IsPlain) {prev : Option Char} {s rest n : Text}
    {a : Attribute} (h : idDefinition.read prev s = some (a, rest))
    (hn : r.newDefinition a = some n) :
    IsAssignment isPlainChar a.text ∧ IsAssignment isPlainChar n ∧
      n.getLast? = a.text.getLast? := by
  have ha : a.IsProper ['i', 'd'] := Attribute.isProper_of_read h
  unfold newDefinition at hn
  split at hn
  · rename_i hid
    cases hn
    have hname : ∀ c ∈ ['i', 'd'], isNameChar c = true := forall_mem_of_all rfl
    refine ⟨⟨a, ?_, rfl⟩, ⟨⟨['i', 'd'], [], [], a.quote, r.newName (trim a.value)⟩, ?_, ?_⟩, ?_⟩
    · exact {
        name_ne_nil := by simp [ha.name_eq]
        name_chars := by
          rw [ha.name_eq]
          exact hname
        gapBefore_blank := ha.gapBefore_blank
        gapAfter_blank := ha.gapAfter_blank
        quote_isQuote := ha.quote_isQuote
        value_chars := isPlainChar_of_mem_value hr hid }
    · exact {
        name_ne_nil := by simp
        name_chars := hname
        gapBefore_blank := by simp
        gapAfter_blank := by simp
        quote_isQuote := ha.quote_isQuote
        value_chars := fun c hc => by
          simp [isPlainChar, not_isMark_of_mem_newName hr hid hc] }
    · simp [Attribute.text]
    · rw [Attribute.getLast?_text, List.getLast?_concat]
  · cases hn

/-- A reference that is renamed has no parentheses in its value, before and after. -/
theorem reference_isAssignment (hr : r.IsPlain) {prev : Option Char} {s rest n : Text}
    {q : QuotedReference} (h : QuotedReference.pattern.read prev s = some (q, rest))
    (hn : r.newReference q = some n) :
    IsAssignment isInnerChar q.text ∧ IsAssignment isInnerChar n ∧
      n.getLast? = q.text.getLast? := by
  have hq : q.IsProper := (QuotedReference.isProper_of_read h).1
  -- The old and the new reference differ in their target alone.
  have value : ∀ v : Text, (∀ c ∈ v, isMark c = false) →
      IsAssignment isInnerChar (q.textTo v) := by
    intro v hv
    refine ⟨⟨q.name, q.gapBefore, q.gapAfter, q.quote, '#' :: v⟩, ⟨hq.name_ne_nil, hq.name_chars,
      hq.gapBefore_blank, hq.gapAfter_blank, hq.quote_isQuote, ?_⟩, ?_⟩
    · intro c hc
      rcases List.mem_cons.1 hc with rfl | hc
      · rfl
      · exact isInnerChar_of_not_isMark (hv c hc)
    · simp [QuotedReference.textTo, Attribute.text]
  unfold newReference at hn
  split at hn
  · rename_i hid
    cases hn
    refine ⟨value _ (hr.ids _ hid.1), value _ fun c => not_isMark_of_mem_newName hr hid.1, ?_⟩
    rw [QuotedReference.text, QuotedReference.textTo, QuotedReference.textTo,
      List.getLast?_concat, List.getLast?_concat]
  · cases hn

theorem newReference_of_equals (hr : r.IsPlain) (q : QuotedReference) (h : '=' ∈ q.target) :
    r.newReference q = none := by
  unfold newReference
  rw [if_neg]
  rintro ⟨hid, -⟩
  have := hr.ids _ hid _ h
  cases this

/-- The three passes as one overlay of the original text. -/
theorem exists_overlay (hr : r.IsPlain) (s : Text) :
    ∃ m : Overlay, m.old = s ∧ m.new = r.apply s ∧ (m.edits 0).Perm (r.edits s) ∧
      ∀ o n, .changed o n ∈ m → o ≠ [] := by
  -- Each pass is made on the overlay of those before it, which it spares.
  have first : ∀ o n, .changed o n ∈ idDefinition.overlayFrom r.newDefinition none s →
      IsAssignment isPlainChar o ∧ IsAssignment isPlainChar n ∧ n.getLast? = o.getLast? := by
    intro o n h
    obtain ⟨prev, t, a, rest, hread, rfl, hn⟩ := Pattern.exists_read_of_mem_overlayFrom h
    exact definition_isAssignment hr hread hn
  obtain ⟨m₂, h₂⟩ :=
    (QuotedReference.spares (newReference_of_equals hr)).exists_combines first none
  have second : ∀ o n, .changed o n ∈ m₂ →
      IsAssignment isInnerChar o ∧ IsAssignment isInnerChar n ∧ n.getLast? = o.getLast? := by
    intro o n h
    rcases h₂.changed h with h | ⟨prev, t, q, rest, hread, rfl, hn⟩
    · obtain ⟨ho, hn, hlast⟩ := first o n h
      exact ⟨ho.imp fun _ => isInnerChar_of_isPlainChar, hn.imp fun _ => isInnerChar_of_isPlainChar,
        hlast⟩
    · exact reference_isAssignment hr hread hn
  obtain ⟨m₃, h₃⟩ := (UrlReference.spares r.newAddress).exists_combines second none
  refine ⟨m₃, ?_, ?_, ?_, ?_⟩
  · rw [h₃.old_eq, h₂.old_eq, Pattern.old_overlayFrom]
  · rw [apply_eq, h₃.new_eq, Pattern.new_overlayFrom r.address_eq, h₂.new_eq,
      Pattern.new_overlayFrom r.reference_eq, Pattern.new_overlayFrom r.definition_eq]
    rfl
  · -- What the later passes add are the edits that they make in the original text.
    have hp₂ := h₂.edits_perm 0
    have hp₃ := h₃.edits_perm 0
    rw [h₂.old_eq, Pattern.old_overlayFrom, Pattern.edits_overlayFrom_none] at hp₃
    rw [Pattern.old_overlayFrom, Pattern.edits_overlayFrom_none,
      Pattern.edits_overlayFrom_none] at hp₂
    exact hp₃.trans (hp₂.append_right _)
  · intro o n h
    have nonempty : ∀ {p}, IsAssignment p o → o ≠ [] := by
      rintro p ⟨a, ha, rfl⟩
      simp [Attribute.text]
    rcases h₃.changed h with h | ⟨prev, t, u, rest, hread, rfl, hn⟩
    · exact nonempty (second o n h).1
    · exact UrlReference.pattern.nonempty hread

/-! ## What an edit exchanges -/

/-- The edit exchanges an identifier, as a whole, for its new name. -/
def Renames (r : Renaming) (e : Edit) : Prop :=
  ∃ v ∈ r.ids, StandsAlone v e.old ∧ StandsAlone (r.newName v) e.new

theorem renames_of_newDefinition (pos : Nat) {a : Attribute} {new : Text}
    (ha : a.IsProper ['i', 'd']) (h : r.newDefinition a = some new) :
    r.Renames ⟨pos, a.text, new⟩ := by
  have hquote := isMark_of_isQuote ha.quote_isQuote
  unfold newDefinition at h
  split at h
  · rename_i hid
    cases h
    obtain ⟨g, w, hvalue, hg, hw⟩ := exists_eq_append_trim a.value
    refine ⟨_, hid, ?_, ?_⟩
    · show StandsAlone (trim a.value) a.text
      rw [Attribute.text_eq]
      conv => rhs; rw [hvalue]
      rw [List.append_assoc]
      exact standsAlone_of_blank a.lead [] hquote hg hw hquote
    · have hs := standsAlone_of_blank (g := []) (w := []) (v := r.newName (trim a.value))
        ['i', 'd', '='] [] hquote (by simp) (by simp) hquote
      simpa using hs
  · cases h

theorem renames_of_newReference (pos : Nat) {q : QuotedReference} {new : Text}
    (hq : q.IsProper) (h : r.newReference q = some new) : r.Renames ⟨pos, q.text, new⟩ := by
  have alone : ∀ v, StandsAlone v (q.textTo v) := by
    intro v
    have hs := standsAlone_of_blank (v := v) (g := []) (w := []) (c := '#')
      (q.name ++ q.gapBefore ++ '=' :: q.gapAfter ++ [q.quote]) [] rfl (by simp) (by simp)
      (isMark_of_isQuote hq.quote_isQuote)
    simpa [QuotedReference.textTo] using hs
  unfold newReference at h
  split at h
  · rename_i hid
    cases h
    exact ⟨_, hid.1, alone _, alone _⟩
  · cases h

theorem renames_of_newAddress (pos : Nat) {u : UrlReference} {new : Text}
    (hu : u.IsProper) (h : r.newAddress u = some new) : r.Renames ⟨pos, u.text, new⟩ := by
  have alone : ∀ v w : Text, (∀ c ∈ w, isBlank c = true) → ∀ before,
      StandsAlone v (before ++ '#' :: (v ++ (u.quote.toList ++ (w ++ [')'])))) := by
    intro v w hw before
    cases hq : u.quote with
    | none =>
      -- Without quotes the closing parenthesis is the mark behind the name.
      have hs := standsAlone_of_blank (v := v) (g := []) (c := '#') (d := ')') before [] rfl
        (by simp) hw rfl
      simpa using hs
    | some y =>
      have hs := standsAlone_of_blank (v := v) (g := []) (w := []) (c := '#') before (w ++ [')'])
        rfl (by simp) (by simp) (isMark_of_isQuote (hu.quote_isQuote y hq))
      simpa using hs
  unfold newAddress at h
  split at h
  · rename_i hid
    cases h
    refine ⟨_, hid, ?_, ?_⟩
    · have hs := alone u.target u.gapAfter hu.gapAfter_blank
        (['u', 'r', 'l', '('] ++ u.gapBefore ++ u.quote.toList)
      simpa [UrlReference.text] using hs
    · have hs := alone (r.newName u.target) [] (by simp) (['u', 'r', 'l', '('] ++ u.quote.toList)
      simpa [UrlReference.textTo] using hs
  · cases h

/-- **Renaming identifiers is one set of edits of the original text.** Where neither the identifiers
nor what is added to them contain marks, the three passes change exactly the definitions, references
and addresses of these identifiers that stand in the text itself. No two of these places overlap,
each holds one of the identifiers as a whole and receives its new name, and all else is kept. -/
theorem apply_eq_applyEdits (hr : r.IsPlain) (s : Text) :
    r.apply s = applyEdits (r.edits s) 0 0 s ∧ (r.edits s).Pairwise Edit.Apart ∧
      ∀ e ∈ r.edits s, e.FitsIn s ∧ r.Renames e := by
  obtain ⟨m, rfl, hnew, hperm, hne⟩ := exists_overlay hr s
  refine ⟨?_, ?_, ?_⟩
  · rw [← hnew]
    exact (Overlay.applyEdits_old hne fun e _ => hperm.mem_iff.symm).symm
  · exact (hperm.pairwise_iff Edit.Apart.symm).1 (m.pairwise_apart_edits 0)
  · intro e he
    refine ⟨Overlay.fitsIn_of_mem_edits (hperm.mem_iff.2 he) [] rfl, ?_⟩
    rcases List.mem_append.1 he with he | he
    · rcases List.mem_append.1 he with he | he
      · obtain ⟨prev, t, a, rest, hread, ha, hn⟩ := Pattern.exists_read_of_mem_editsOf he
        have := renames_of_newDefinition e.start (Attribute.isProper_of_read hread) hn
        rwa [show a.text = e.old from ha] at this
      · obtain ⟨prev, t, q, rest, hread, hq, hn⟩ := Pattern.exists_read_of_mem_editsOf he
        have := renames_of_newReference e.start (QuotedReference.isProper_of_read hread).1 hn
        rwa [show q.text = e.old from hq] at this
    · obtain ⟨prev, t, u, rest, hread, hu, hn⟩ := Pattern.exists_read_of_mem_editsOf he
      have := renames_of_newAddress e.start (UrlReference.isProper_of_read hread) hn
      rwa [show u.text = e.old from hu] at this

/-- A definition and both kinds of reference are edited; the longer identifier is not. -/
theorem apply_eq_applyEdits_letters :
    (⟨[['a']], ['h'], ['u']⟩ : Renaming).IsPlain ∧
      applyEdits ((⟨[['a']], ['h'], ['u']⟩ : Renaming).edits
        "id='a' to='#a' by=url( #a ) to='#aa'".toList) 0 0
        "id='a' to='#a' by=url( #a ) to='#aa'".toList =
      "id='h-a-\x7b\x7bu\x7d\x7d' to='#h-a-\x7b\x7bu\x7d\x7d' ".toList ++
        "by=url(#h-a-\x7b\x7bu\x7d\x7d) to='#aa'".toList := by
  have hr : (⟨[['a']], ['h'], ['u']⟩ : Renaming).IsPlain :=
    .of_isWordChar
      (fun v hv => by
        rw [List.mem_singleton] at hv
        subst hv
        exact forall_mem_of_all rfl)
      (forall_mem_of_all rfl) (forall_mem_of_all rfl)
  obtain ⟨happly, -, -⟩ := apply_eq_applyEdits hr "id='a' to='#a' by=url( #a ) to='#aa'".toList
  refine ⟨hr, ?_⟩
  rw [← happly]
  decide +kernel

end Renaming

end SvgAssets.Markup
