/-
# SvgAssets.Proofs.Xml.Checking -- what the check of a tag depends on

In a document without a document type declaration (`Doctype.IsBare`) the check of a tag depends on
the names of its attributes, on whether their values can be resolved, and on the values that bind
prefixes. Where two tags agree in this, one binds what the other does (`WrittenTag.IsLike.binds`).
-/
import SvgAssets.Proofs.Xml.WrittenTag

namespace SvgAssets.Xml

open Text

/-! ## Lists side by side -/

section

variable {α β γ : Type}

theorem forall₂_trans {R : α → β → Prop} {S : β → γ → Prop} {T : α → γ → Prop}
    (hT : ∀ a b c, R a b → S b c → T a c) {as : List α} {bs : List β} {cs : List γ}
    (h : List.Forall₂ R as bs) (h' : List.Forall₂ S bs cs) : List.Forall₂ T as cs := by
  induction h generalizing cs with
  | nil =>
    cases h'
    exact .nil
  | cons hab _ ih =>
    cases h' with
    | cons hbc h' => exact .cons (hT _ _ _ hab hbc) (ih h')

theorem forall₂_and_right {R : α → β → Prop} {P : β → Prop} {as : List α} {bs : List β}
    (h : List.Forall₂ R as bs) (hP : ∀ b ∈ bs, P b) :
    List.Forall₂ (fun a b => R a b ∧ P b) as bs := by
  induction h with
  | nil => exact .nil
  | cons hab _ ih =>
    rw [List.forall_mem_cons] at hP
    exact .cons ⟨hab, hP.1⟩ (ih hP.2)

end

theorem exists_of_forall₂_append {α β : Type} {R : α → β → Prop} {as bs : List α} {cs : List β}
    (h : List.Forall₂ R (as ++ bs) cs) :
    ∃ as' bs', cs = as' ++ bs' ∧ List.Forall₂ R as as' ∧ List.Forall₂ R bs bs' := by
  induction as generalizing cs with
  | nil => exact ⟨[], cs, rfl, .nil, h⟩
  | cons a as ih =>
    obtain ⟨c, cs, hac, hrest, rfl⟩ := List.forall₂_cons_left_iff.1 h
    obtain ⟨as', bs', rfl, has, hbs⟩ := ih hrest
    exact ⟨c :: as', bs', rfl, .cons hac has, hbs⟩

/-! ## Values -/

/-- Nothing is declared, here or elsewhere. -/
structure Doctype.IsBare (d : Doctype) : Prop where
  entities : d.entities = []
  attributes : d.attributes = []
  isOpen : d.isOpen = false

theorem Doctype.isBare_empty : Doctype.empty.IsBare := ⟨rfl, rfl, rfl⟩

theorem resolveValue_cons {d : Doctype} {depth : Nat} {opened : List Text} {c : Char} {s : Text}
    (hc : c ≠ '<' ∧ c ≠ '&') (hbreak : c = '\r' → s.head? ≠ some '\n') :
    resolveValue d depth opened (c :: s) =
      (resolveValue d depth opened s).map ((if isSpace c then ' ' else c) :: ·) := by
  rw [resolveValue]
  · exact hc.1
  · exact hc.2
  · rintro rest rfl rfl
    exact hbreak rfl rfl

/-- Character data is resolved alike in all documents. -/
theorem exists_resolveValue_eq {v : Text} (h : IsData v) :
    ∃ x, ∀ d depth opened, resolveValue d depth opened v = .ok x := by
  induction hn : v.length using Nat.strongRecOn generalizing v with
  | ind n ih =>
    subst hn
    cases h with
    | nil =>
      refine ⟨[], fun d depth opened => ?_⟩
      rw [resolveValue]
    | @char c s hc hs =>
      simp only [isDataChar, Bool.and_eq_true, bne_iff_ne] at hc
      by_cases hbreak : c = '\r' ∧ s.head? = some '\n'
      · obtain ⟨rfl, hhead⟩ := hbreak
        obtain ⟨t, rfl⟩ : ∃ t, s = '\n' :: t := by
          cases s with
          | nil => cases hhead
          | cons d t => exact ⟨t, by rw [Option.some.inj hhead]⟩
        obtain ⟨x, hx⟩ := ih t.length (by simp only [List.length_cons]; omega)
          (hs.of_cons (by decide)).2 rfl
        refine ⟨' ' :: x, fun d depth opened => ?_⟩
        rw [resolveValue, hx]
        rfl
      · obtain ⟨x, hx⟩ := ih s.length (by simp) hs rfl
        refine ⟨(if isSpace c then ' ' else c) :: x, fun d depth opened => ?_⟩
        rw [resolveValue_cons ⟨hc.1.1.2, hc.2⟩ fun hr hn => hbreak ⟨hr, hn⟩, hx]
        rfl
    | @reference body s hbody hs =>
      obtain ⟨r, hr, hreads⟩ := hbody.reads
      obtain ⟨x, hx⟩ := ih s.length
        (by simp only [List.cons_append, List.length_cons, List.length_append]; omega) hs rfl
      obtain ⟨y, hy⟩ : ∃ y : Char, (match r with
          | .character n => character? n
          | .entity name => predefined? name) = some y := by
        cases r <;> exact Option.isSome_iff_exists.1 hr
      refine ⟨y :: x, fun d depth opened => ?_⟩
      rw [List.cons_append, resolveValue]
      split
      · rename_i e he
        rw [hreads] at he
        cases he
      · rename_i reference behind he
        rw [hreads] at he
        cases he
        cases r with
        | character n =>
          simp only at hy
          simp only [hy, hx]
          rfl
        | entity name =>
          simp only at hy
          simp only [hy, hx]
          rfl

/-! ## Attributes -/

namespace Attribute

/-- Two attributes of one name, the second with a value that needs no declaration. Where they bind a
prefix, they bind it to the same value. -/
structure IsLike (a a' : Attribute) : Prop where
  name_eq : a'.name = a.name
  value_isData : IsData a'.value
  value_eq : boundPrefix? a.name ≠ none → a'.value = a.value

end Attribute

namespace AttributeState

/-- The value of an attribute that binds no prefix is not looked at. -/
theorem note_congr {name : QualifiedName} (h : boundPrefix? name = none) (st : AttributeState)
    (v v' : Text) : st.note name v = st.note name v' := by
  rw [note, note]
  simp only [h]

theorem noteWritten_congr {d d' : Doctype} {opened opened' : List Text} {start start' : Text}
    {as as' : List Attribute} (h : List.Forall₂ Attribute.IsLike as as') {st final : AttributeState}
    (hok : noteWritten d opened [] start st as = .ok final) :
    noteWritten d' opened' [] start' st as' = .ok final := by
  induction h generalizing st with
  | nil => exact hok
  | @cons a a' as as' ha _ ih =>
    rw [noteWritten] at hok ⊢
    rw [ha.name_eq]
    split at hok
    · cases hok
    · rename_i hnew
      rw [if_neg hnew]
      obtain ⟨x, hx⟩ := exists_resolveValue_eq ha.value_isData
      have hvalue : ∀ (d : Doctype) opened, d.value opened true a'.value = .ok x := by
        intro d opened
        rw [Doctype.value, hx]
        rfl
      simp only [List.find?_nil, Option.map_none, Option.getD_none] at hok ⊢
      simp only [hvalue]
      split at hok
      · cases hok
      · rename_i value hresolved
        have hnote : st.note a.name value = st.note a.name x := by
          cases hbound : boundPrefix? a.name with
          | none => exact note_congr hbound st value x
          | some q =>
            rw [← ha.value_eq (by rw [hbound]; exact Option.some_ne_none q), hvalue] at hresolved
            rw [Except.ok.inj hresolved]
        rw [hnote] at hok
        split at hok
        · cases hok
        · exact ih hok

/-- Attributes without prefixes are only noted by their names, which must differ. -/
theorem exists_noteWritten {as : List Attribute}
    (hplain : ∀ a ∈ as, boundPrefix? a.name = none ∧ a.name.qualifier = none ∧ IsData a.value)
    {st : AttributeState} (hnodup : (as.map (·.name)).Nodup) (hnew : ∀ a ∈ as, a.name ∉ st.names) :
    ∃ names, noteWritten .empty [] [] [] st as = .ok { st with names } := by
  induction as generalizing st with
  | nil => exact ⟨st.names, rfl⟩
  | cons a as ih =>
    obtain ⟨⟨hbound, hqualifier, hdata⟩, hplain⟩ := List.forall_mem_cons.1 hplain
    obtain ⟨hfresh, hnodup⟩ := List.nodup_cons.1 hnodup
    obtain ⟨hfirst, hnew⟩ := List.forall_mem_cons.1 hnew
    obtain ⟨x, hx⟩ := exists_resolveValue_eq hdata
    have hvalue : Doctype.empty.value [] true a.value = .ok x := by
      rw [Doctype.value, hx]
      rfl
    have hnote : st.note a.name x = .ok { st with names := a.name :: st.names } := by
      rw [note]
      simp only [hbound, hqualifier]
      rfl
    obtain ⟨names, hrest⟩ := @ih hplain { st with names := a.name :: st.names } hnodup
      fun b hb hmem => by
        rcases List.mem_cons.1 hmem with he | hmem
        · exact hfresh (List.mem_map.2 ⟨b, hb, he⟩)
        · exact hnew b hb hmem
    refine ⟨names, ?_⟩
    rw [noteWritten, if_neg hfirst]
    simp only [List.find?_nil, Option.map_none, Option.getD_none, hvalue, hnote, hrest]

end AttributeState

/-! ## Tags -/

theorem Doctype.IsBare.rulesOf_eq {d : Doctype} (h : d.IsBare) (element : Text) :
    d.rulesOf element = [] := by
  rw [Doctype.rulesOf, h.attributes]
  rfl

theorem mapError_eq_ok_iff {ε ε' α : Type} {f : ε → ε'} {x : Except ε α} {a : α} :
    x.mapError f = .ok a ↔ x = .ok a := by
  cases x <;> simp [Except.mapError]

/-- Tags that differ in values that bind nothing are checked alike, wherever they stand. -/
theorem OpenTag.check_congr {d d' : Doctype} (hd : d.IsBare) (hd' : d'.IsBare) {tag tag' : OpenTag}
    (hname : tag'.name = tag.name)
    (hattributes : List.Forall₂ Attribute.IsLike tag.attributes tag'.attributes)
    {opened opened' : List Text} {bindings inside : Bindings} {start start' : Text}
    (h : tag.check d opened bindings start = .ok inside) :
    tag'.check d' opened' bindings start' = .ok inside := by
  rw [check] at h ⊢
  rw [hname, hd'.rulesOf_eq]
  rw [hd.rulesOf_eq] at h
  cases hnote : AttributeState.noteWritten d opened [] start ⟨[], [], bindings⟩ tag.attributes with
  | error f =>
    rw [hnote] at h
    cases h
  | ok st =>
    rw [hnote] at h
    rw [AttributeState.noteWritten_congr hattributes hnote]
    -- What is left is the same check, which fails at one place or another.
    replace h : Except.mapError _ (_ : Except Cause Bindings) = .ok inside := h
    show Except.mapError _ (_ : Except Cause Bindings) = .ok inside
    exact mapError_eq_ok_iff.2 (mapError_eq_ok_iff.1 h)

/-! ## Tags as they are written -/

/-- Two attributes of one name. Where they bind a prefix, they bind it to the same value. -/
structure WrittenAttribute.IsLike (w w' : WrittenAttribute) : Prop where
  name_eq : w'.name = w.name
  value_eq : boundPrefix? w.name ≠ none → w'.value = w.value

namespace WrittenTag

/-- Two tags of one name with the same kind of end, whose attributes are alike. -/
structure IsLike (t t' : WrittenTag) : Prop where
  name_eq : t'.name = t.name
  isEmpty_eq : t'.isEmpty = t.isEmpty
  attributes : List.Forall₂ WrittenAttribute.IsLike t.attributes t'.attributes

theorem isLike_refl (t : WrittenTag) : t.IsLike t :=
  ⟨rfl, rfl, List.forall₂_same.2 fun _ _ => ⟨rfl, fun _ => rfl⟩⟩

theorem IsLike.trans {t t' t'' : WrittenTag} (h : t.IsLike t') (h' : t'.IsLike t'') :
    t.IsLike t'' := by
  refine ⟨h'.name_eq.trans h.name_eq, h'.isEmpty_eq.trans h.isEmpty_eq, ?_⟩
  refine forall₂_trans (fun w w' w'' hw hw' => ?_) h.attributes h'.attributes
  refine ⟨hw'.name_eq.trans hw.name_eq, fun hbound => ?_⟩
  rw [hw'.value_eq (by rwa [hw.name_eq]), hw.value_eq hbound]

/-- The tag as it is read, without its place in a document. -/
def toTag (t : WrittenTag) : OpenTag where
  name := t.name
  attributes := t.attributes.map fun w => ⟨w.name, w.value, [], []⟩
  isEmpty := t.isEmpty

/-- Inside the first bindings the tag passes the check, and the second ones hold behind it. -/
def Binds (t : WrittenTag) (bindings inside : Bindings) : Prop :=
  t.toTag.check .empty [] bindings [] = .ok inside

variable {t t' : WrittenTag} {bindings inside : Bindings}

/-- A tag that is like another one binds what that one binds. -/
theorem IsLike.binds (h : t.IsLike t') (ht' : t'.IsProper) (hbinds : t.Binds bindings inside) :
    t'.Binds bindings inside := by
  refine OpenTag.check_congr Doctype.isBare_empty Doctype.isBare_empty h.name_eq ?_ hbinds
  rw [toTag, toTag, List.forall₂_map_left_iff, List.forall₂_map_right_iff]
  exact (forall₂_and_right h.attributes ht'.attributes).imp fun w w' hw =>
    ⟨hw.1.name_eq, hw.2.value_isData, hw.1.value_eq⟩

/-- A tag that is read binds what it binds as it is written. -/
theorem Binds.check_eq_ok (hbinds : t.Binds bindings inside) (ht : t.IsProper) {tag : OpenTag}
    (hname : tag.name = t.name)
    (hattributes : List.Forall₂ Attribute.Matches tag.attributes t.attributes)
    {d : Doctype} (hd : d.IsBare) (opened : List Text) (start : Text) :
    tag.check d opened bindings start = .ok inside := by
  refine OpenTag.check_congr Doctype.isBare_empty hd hname ?_ hbinds
  rw [toTag, List.forall₂_map_left_iff]
  refine List.Forall₂.flip ((forall₂_and_right hattributes ht.attributes).imp fun a w haw => ?_)
  exact ⟨haw.1.1, by rw [haw.1.2]; exact haw.2.value_isData, fun _ => haw.1.2⟩

/-- A tag without prefixes binds none, if no two of its attributes have one name. -/
theorem IsProper.binds_self (ht : t.IsProper)
    (hname : t.name.qualifier = none)
    (hplain : ∀ w ∈ t.attributes, w.name.qualifier = none ∧ w.name.localName ≠ xmlnsPrefix)
    (hnodup : (t.attributes.map (·.name)).Nodup) (bindings : Bindings) :
    t.Binds bindings bindings := by
  obtain ⟨names, hnote⟩ := @AttributeState.exists_noteWritten t.toTag.attributes
    (by
      rw [toTag, List.forall_mem_map]
      intro w hw
      obtain ⟨hqualifier, hlocal⟩ := hplain w hw
      exact ⟨by simp [boundPrefix?, hqualifier, hlocal], hqualifier,
        (ht.attributes w hw).value_isData⟩)
    ⟨[], [], bindings⟩ (by simpa [toTag, Function.comp_def] using hnodup)
    (fun _ _ => List.not_mem_nil)
  have hqualifier : t.toTag.name.qualifier = none := hname
  rw [Binds, OpenTag.check, Doctype.isBare_empty.rulesOf_eq, hnote]
  simp only [bind, Except.bind, AttributeState.noteDefaults, AttributeState.checkQualified,
    hqualifier]
  rfl

end WrittenTag

end SvgAssets.Xml
