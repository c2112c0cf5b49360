/-
# SvgAssets.Proofs.Markup.NormalizedIdentifiers -- identifiers before or after normalisation

Identifiers are collected before declarations are reduced to references, and are normalised on their
own later on. This comes to the same as collecting them from the normalised markup
(`collectIds_normalize`) as long as no declaration holds a quote or a line break. Then a declaration
stands within a value or outside of all definitions: what a definition has in front of its value
holds no brace, and a declaration holds no quote. So both passes read the same definitions, one by
one, with the values normalised (`definitionsFrom_normalize`).
-/
import SvgAssets.Pipeline.BuiltIn
import SvgAssets.Proofs.Markup.Assignments
import SvgAssets.Proofs.Pipeline.Running
import SvgAssets.Proofs.Template.NormalizedText

namespace SvgAssets

namespace Markup

open Text Template

/-! ## Each text once -/

theorem distinct_concat (xs : List Text) (x : Text) :
    distinct (xs ++ [x]) = if x ∈ distinct xs then distinct xs else distinct xs ++ [x] := by
  rw [distinct, List.foldl_append]
  rfl

theorem mem_distinct {xs : List Text} {x : Text} : x ∈ distinct xs ↔ x ∈ xs := by
  induction xs using List.reverseRecOn with
  | nil => rfl
  | append_singleton xs y ih =>
    rw [distinct_concat, List.mem_append, List.mem_singleton]
    split
    · rename_i hy
      rw [ih]
      refine ⟨.inl, ?_⟩
      rintro (hx | rfl)
      · exact hx
      · exact ih.1 hy
    · rw [List.mem_append, List.mem_singleton, ih]

/-- What is left out as a repetition is a repetition under every function. -/
theorem distinct_map_distinct (f : Text → Text) (xs : List Text) :
    distinct ((distinct xs).map f) = distinct (xs.map f) := by
  induction xs using List.reverseRecOn with
  | nil => rfl
  | append_singleton xs x ih =>
    rw [distinct_concat, List.map_append, List.map_singleton, distinct_concat]
    split
    · rename_i hx
      rw [ih, if_pos]
      exact mem_distinct.2 (List.mem_map_of_mem (mem_distinct.1 hx))
    · rw [List.map_append, List.map_singleton, distinct_concat, ih]

/-! ## Definitions and declarations -/

/-- A character at which a value ends: a quote, or the end of the line. -/
def isValueEnd (c : Char) : Bool := isQuote c || c == '\n'

/-- No declaration of the text holds a quote or a line break. -/
def HasPlainDeclarations (s : Text) : Prop :=
  ∀ d ∈ declarations s, ∀ c ∈ d.text, isValueEnd c = false

theorem HasPlainDeclarations.notMem {s : Text} (h : HasPlainDeclarations s) {q : Char}
    (hq : isValueEnd q = true) : ∀ d ∈ declarations s, q ∉ d.text := by
  intro d hd hmem
  rw [h d hd q hmem] at hq
  cases hq

/-- A cut at the end of a value leaves no other declarations. -/
theorem HasPlainDeclarations.of_append_cons {q : Char} (hq : isValueEnd q = true) {x y : Text}
    (h : HasPlainDeclarations (x ++ q :: y)) : HasPlainDeclarations x ∧ HasPlainDeclarations y := by
  have hdeclarations := declarations_append_cons (h.notMem hq)
  rw [HasPlainDeclarations, hdeclarations, List.forall_mem_append] at h
  exact h

/-- The name of the attributes that define identifiers. -/
abbrev idName : Text := ['i', 'd']

namespace Attribute

variable {a : Attribute}

theorem IsProper.hasValue (h : a.IsProper idName) : a.HasValue fun _ => true where
  name_ne_nil := by simp [h.name_eq]
  name_chars := by
    rw [h.name_eq]
    exact forall_mem_of_all rfl
  gapBefore_blank := h.gapBefore_blank
  gapAfter_blank := h.gapAfter_blank
  quote_isQuote := h.quote_isQuote
  value_chars := fun _ _ => rfl

theorem IsProper.isValueEnd_quote (h : a.IsProper idName) : isValueEnd a.quote = true := by
  rw [isValueEnd, h.quote_isQuote, Bool.true_or]

/-- In front of the value no brace stands. -/
theorem IsProper.brace_notMem_lead (h : a.IsProper idName) : '\x7b' ∉ a.lead ∧ '\x7d' ∉ a.lead := by
  refine ⟨fun hmem => ?_, fun hmem => ?_⟩
  · exact absurd (mem_lead h.hasValue hmem) (by decide)
  · exact absurd (mem_lead h.hasValue hmem) (by decide)

/-- The attribute with its value normalised. -/
def normalized (a : Attribute) : Attribute := { a with value := normalize a.value }

theorem IsProper.normalized (h : a.IsProper idName) : a.normalized.IsProper idName :=
  { h with value_chars := fun c hc => h.value_chars c (mem_of_mem_normalize hc) }

/-- A definition is normalised by its value, and what stands behind it on its own. -/
theorem IsProper.normalize_text_append (h : a.IsProper idName) {rest : Text}
    (hplain : HasPlainDeclarations (a.text ++ rest)) :
    normalize (a.text ++ rest) = a.normalized.text ++ normalize rest ∧
      HasPlainDeclarations rest := by
  rw [text_append] at hplain ⊢
  have hlead := normalize_append_left h.brace_notMem_lead.1 []
  rw [normalize_nil, List.append_nil] at hlead
  obtain ⟨-, hvalue⟩ := hplain.of_append_cons h.isValueEnd_quote
  obtain ⟨-, hrest⟩ := hvalue.of_append_cons h.isValueEnd_quote
  refine ⟨?_, hrest⟩
  rw [normalize_append_cons (hplain.notMem h.isValueEnd_quote),
    normalize_append_cons (hvalue.notMem h.isValueEnd_quote), hlead, text_append]
  rfl

theorem atNameStart_of_read {name s rest : Text} {prev : Option Char}
    (h : read name prev s = some (a, rest)) : atNameStart prev = true := by
  simp only [read, Option.bind_eq_bind, Option.bind_eq_some_iff, after?_eq_some_iff,
    Prod.exists, one?_eq_some_iff] at h
  obtain ⟨s₁, -, s₂, -, quote, s₃, -, s₄, -, h⟩ := h
  split at h
  · assumption
  · cases h

end Attribute

/-- No definition begins in a stretch that holds no quote and ends with a brace. -/
theorem silent_idDefinition {w : Text} (hquote : ∀ c ∈ w, isQuote c = false)
    (hlast : w.getLast? = some '\x7d') (prev : Option Char) (t : Text) :
    idDefinition.Silent prev w t := by
  refine Pattern.silent_of_forall_suffix _ (fun v hne hv prev => ?_) prev
  rw [Option.eq_none_iff_forall_ne_some]
  rintro ⟨a, rest⟩ hread
  have ha := Attribute.isProper_of_read hread
  have htext := (Attribute.text_of_read hread).1
  rw [Attribute.text_append] at htext
  obtain ⟨u, rfl⟩ := hv
  rw [List.getLast?_append_of_ne_nil _ hne] at hlast
  rcases exists_of_append_eq_append_cons htext with ⟨s', hlead, -⟩ | ⟨z, hv, -⟩
  · -- The brace at the end of the stretch would stand in front of the value.
    refine ha.brace_notMem_lead.2 ?_
    rw [hlead]
    exact List.mem_append_left _ (List.mem_of_getLast? hlast)
  · -- The quote in front of the value would stand in the stretch.
    have hmem : a.quote ∈ u ++ v := by
      rw [hv]
      simp
    have hfalse := hquote _ hmem
    rw [ha.quote_isQuote] at hfalse
    cases hfalse

/-- Where no definition is read, none is read after normalisation. -/
theorem read_normalize_eq_none {s : Text} (h : HasPlainDeclarations s) {prev : Option Char}
    (hread : idDefinition.read prev s = none) : idDefinition.read prev (normalize s) = none := by
  rw [Option.eq_none_iff_forall_ne_some]
  rintro ⟨a, rest⟩ hr
  have ha := Attribute.isProper_of_read hr
  have htext := (Attribute.text_of_read hr).1
  have hquote := ha.isValueEnd_quote
  rw [Attribute.text_append, ← List.singleton_append, ← List.append_assoc] at htext
  -- The text begins as the definition does, up to the value.
  have hbrace : '\x7b' ∉ a.lead ++ [a.quote] := by
    intro hmem
    rcases List.mem_append.1 hmem with hmem | hmem
    · exact ha.brace_notMem_lead.1 hmem
    · rw [← List.mem_singleton.1 hmem] at hquote
      cases hquote
  obtain ⟨t, rfl, ht⟩ := exists_of_normalize_eq hbrace htext
  rw [List.append_assoc, List.singleton_append] at h hread
  have hplain := (h.of_append_cons hquote).2
  -- The quote behind the value stands in the text too, and the value there is normalised to this
  -- one.
  have hmem : a.quote ∈ t := mem_of_mem_normalize (by rw [ht]; simp)
  rcases forall_or_exists_eq_append (· != a.quote) t with hnot | ⟨v, c, z, rfl, hv, hc⟩
  · exact absurd (hnot _ hmem) (by simp)
  obtain rfl : c = a.quote := by simpa using hc
  rw [normalize_append_cons (hplain.notMem hquote)] at ht
  have hother : ∀ {w : Text}, (∀ c ∈ w, c ≠ a.quote ∧ c ≠ '\n') → ∀ c ∈ w, (c != a.quote) = true :=
    fun hw c hc => by simpa using (hw c hc).1
  have hvalue : normalize v = a.value :=
    (eq_of_append_eq_append (fun c hc => hv c (mem_of_mem_normalize hc)) (hother ha.value_chars)
      (by simp) (by simp) ht).1
  have hline : '\n' ∉ v := by
    intro hmem
    obtain ⟨x, y, rfl⟩ := List.append_of_mem hmem
    have hcut := normalize_append_cons (x := x) (y := y)
      ((hplain.of_append_cons hquote).1.notMem (q := '\n') rfl)
    refine (ha.value_chars '\n' ?_).2 rfl
    rw [← hvalue, hcut]
    simp
  have hproper : Attribute.IsProper idName { a with value := v } := by
    refine { ha with value_chars := fun c hc => ⟨by simpa using hv c hc, ?_⟩ }
    rintro rfl
    exact hline hc
  have hfound := Attribute.read_text_append hproper (Attribute.atNameStart_of_read hr) z
  rw [Attribute.text_append] at hfound
  exact absurd (hread.symm.trans hfound) (by simp)

/-! ## All definitions -/

/-- The definitions of a text, where `prev` is the character in front of it. -/
def definitionsFrom (prev : Option Char) (s : Text) : List Attribute :=
  (idDefinition.scanFrom prev s).filterMap fun
    | .plain _ => none
    | .token a => some a

theorem definitionsFrom_of_read {prev : Option Char} {s rest : Text} {a : Attribute}
    (h : idDefinition.read prev s = some (a, rest)) :
    definitionsFrom prev s = a :: definitionsFrom (some a.quote) rest := by
  have hlast : (idDefinition.text a).getLast? = some a.quote := a.getLast?_text
  rw [definitionsFrom, idDefinition.scanFrom_of_read h, hlast]
  rfl

theorem definitionsFrom_of_none {prev : Option Char} {c : Char} {s : Text}
    (h : idDefinition.read prev (c :: s) = none) :
    definitionsFrom prev (c :: s) = definitionsFrom (some c) s := by
  rw [definitionsFrom, idDefinition.scanFrom_of_none h]
  rfl

theorem definitionsFrom_append {prev : Option Char} {w t : Text}
    (h : idDefinition.Silent prev w t) :
    definitionsFrom prev (w ++ t) = definitionsFrom (Pattern.behind prev w) t := by
  rw [definitionsFrom, idDefinition.scanFrom_append_of_silent h, List.filterMap_append,
    List.filterMap_map]
  exact congrArg (· ++ _) (List.filterMap_eq_nil_iff.2 fun _ _ => rfl)

/-- **Normalisation normalises the definitions.** -/
theorem definitionsFrom_normalize {s : Text} (h : HasPlainDeclarations s) (prev : Option Char) :
    definitionsFrom prev (normalize s) = (definitionsFrom prev s).map Attribute.normalized := by
  induction hn : s.length using Nat.strongRecOn generalizing s prev with
  | ind n ih =>
    cases hread : idDefinition.read prev s with
    | some found =>
      obtain ⟨a, rest⟩ := found
      have ha := Attribute.isProper_of_read hread
      have hs := (Attribute.text_of_read hread).1
      rw [hs] at h
      obtain ⟨hnormal, hrest⟩ := ha.normalize_text_append h
      have hagain : idDefinition.read prev (normalize s) = some (a.normalized, normalize rest) := by
        rw [hs, hnormal]
        exact Attribute.read_text_append ha.normalized (Attribute.atNameStart_of_read hread) _
      rw [definitionsFrom_of_read hread, definitionsFrom_of_read hagain, List.map_cons]
      have hlength : rest.length < n := by
        rw [← hn]
        exact idDefinition.length_lt hread
      exact congrArg _ (ih rest.length hlength hrest _ rfl)
    | none =>
      have hnone := read_normalize_eq_none h hread
      cases s with
      | nil =>
        rw [normalize_nil, definitionsFrom, Pattern.scanFrom]
        rfl
      | cons c s =>
        cases hdeclared : Declaration.read (c :: s) with
        | none =>
          rw [HasPlainDeclarations, declarations_cons hdeclared] at h
          rw [normalize_cons hdeclared] at hnone ⊢
          rw [definitionsFrom_of_none hread, definitionsFrom_of_none hnone]
          exact ih s.length (by rw [← hn]; exact Nat.lt_succ_self _) h _ rfl
        | some found =>
          -- Neither within a declaration nor within its reference does a definition begin.
          obtain ⟨d, rest⟩ := found
          obtain ⟨hd, hs⟩ := Declaration.read_eq_some_iff.1 hdeclared
          rw [hs] at h ⊢
          rw [HasPlainDeclarations, declarations_text_append hd, List.forall_mem_cons] at h
          have hquote : ∀ c ∈ d.text, isQuote c = false := by
            intro c hc
            have hplain := h.1 c hc
            rw [isValueEnd, Bool.or_eq_false_iff] at hplain
            exact hplain.1
          have htext := silent_idDefinition hquote d.getLast?_text prev rest
          have hreference := silent_idDefinition
            (fun c hc => hquote c (Declaration.mem_of_mem_reference hc)) d.getLast?_reference prev
            (normalize rest)
          have hbehind : Pattern.behind prev d.reference = Pattern.behind prev d.text := by
            rw [Pattern.behind, Pattern.behind, d.getLast?_reference, d.getLast?_text]
          have hlength : rest.length < n := by
            rw [← hn, hs, List.length_append]
            have hpos : 0 < d.text.length := List.length_pos_iff.2 (by simp [Declaration.text])
            omega
          rw [normalize_text_append hd, definitionsFrom_append hreference,
            definitionsFrom_append htext, hbehind]
          exact ih rest.length hlength h.2 _ rfl

/-- The identifiers of definitions, in order. -/
def identifiersOf (definitions : List Attribute) : List Text :=
  (definitions.map fun a => trim a.value).filter fun v => !v.isEmpty

theorem collectIds_eq (s : Text) :
    collectIds s = distinct (identifiersOf (definitionsFrom none s)) := by
  have htokens : idDefinition.tokens s = definitionsFrom none s := by
    refine List.filterMap_congr fun piece _ => ?_
    cases piece with
    | plain c => rfl
    | token a => rfl
  rw [collectIds, htokens, identifiersOf]

theorem identifiersOf_map_normalized (definitions : List Attribute) :
    identifiersOf (definitions.map Attribute.normalized) =
      (identifiersOf definitions).map normalize := by
  have hempty : (fun v : Text => !(normalize v).isEmpty) = fun v => !v.isEmpty := by
    funext v
    rw [Bool.eq_iff_iff]
    simp [normalize_eq_nil_iff]
  have htrim : (definitions.map Attribute.normalized).map (fun a => trim a.value) =
      (definitions.map fun a => trim a.value).map normalize := by
    rw [List.map_map, List.map_map]
    exact List.map_congr_left fun a _ => (normalize_trim a.value).symm
  rw [identifiersOf, htrim, List.filter_map]
  exact congrArg (List.map normalize) (congrArg (List.filter · _) hempty)

/-- Identifiers that become equal by normalisation are collected as one. -/
theorem collectIds_normalize {s : Text} (h : HasPlainDeclarations s) :
    collectIds (normalize s) = distinct ((collectIds s).map normalize) := by
  rw [collectIds_eq, definitionsFrom_normalize h, identifiersOf_map_normalized, collectIds_eq,
    distinct_map_distinct]

end Markup

namespace Pipeline

open Template Markup

/-- The stages that collect the identifiers, scan for variables and reduce declarations. -/
abbrev collectingStages : List Stage := (builtInStages.drop 5).take 3

/-- Behind these stages the identifiers are those of the markup before, which has been
normalised. -/
theorem eq_of_passes_collectingStages {x y : Subject} (h : Passes collectingStages x y) :
    y.asset.ids = collectIds x.asset.source.svg ∧
      y.asset.source.svg = normalize x.asset.source.svg := by
  cases h with
  | cons _ h =>
  cases h with
  | cons _ h =>
  cases h with
  | cons _ h =>
  cases h with
  | nil => exact ⟨rfl, rfl⟩

/-- **Identifiers may be collected before or after normalisation.** Where no declaration holds a
quote or a line break, the normalised text defines the identifiers of the text, normalised, each
once and in the order of first occurrences. So the identifiers that are collected before
normalisation and are normalised when they are renamed are those that the markup then defines. -/
theorem collectIds_before_or_after :
    (∀ s, HasPlainDeclarations s →
      collectIds (normalize s) = distinct ((collectIds s).map normalize)) ∧
    ∀ x y : Subject, HasPlainDeclarations x.asset.source.svg → Passes collectingStages x y →
      collectIds y.asset.source.svg = distinct (y.asset.ids.map normalize) ∧
        ∀ id, id ∈ y.asset.ids.map normalize ↔ id ∈ collectIds y.asset.source.svg := by
  refine ⟨fun s hs => Markup.collectIds_normalize hs, fun x y hplain hpasses => ?_⟩
  obtain ⟨hids, hsvg⟩ := eq_of_passes_collectingStages hpasses
  have hcollect : collectIds y.asset.source.svg = distinct (y.asset.ids.map normalize) := by
    rw [hids, hsvg, Markup.collectIds_normalize hplain]
  refine ⟨hcollect, fun id => ?_⟩
  rw [hcollect, mem_distinct]

/-- Two of the identifiers become equal, one of them with white space around it. -/
def templatedMarkup : Text :=
  "<g id=\" \x7b\x7b1| a \x7d\x7d \"><g id='\x7b\x7b2|a\x7d\x7d'/><g id='b'/></g>".toList

/-- The asset with this markup, about which nothing is known. -/
def templatedSubject : Subject := .ofSource {} ⟨[], [], templatedMarkup, [], []⟩

theorem collectIds_before_or_after_templated :
    HasPlainDeclarations templatedMarkup ∧
      collectIds (normalize templatedMarkup) = ["\x7b\x7ba\x7d\x7d".toList, "b".toList] ∧
      ∃ y, Passes collectingStages templatedSubject y ∧
        y.asset.ids = ["\x7b\x7b1| a \x7d\x7d".toList, "\x7b\x7b2|a\x7d\x7d".toList, "b".toList] ∧
        collectIds y.asset.source.svg = distinct (y.asset.ids.map normalize) := by
  have hplain : HasPlainDeclarations templatedMarkup := by
    have hall : ∀ d ∈ declarations templatedMarkup,
        (d.text.all fun c => decide (isValueEnd c = false)) = true := by
      decide +kernel
    exact fun d hd => Text.forall_mem_of_all (hall d hd)
  have hpasses : Passes collectingStages templatedSubject _ :=
    .cons rfl (.cons (by decide +kernel) (.cons rfl (.nil _)))
  refine ⟨hplain, ?_, _, hpasses, by decide +kernel, ?_⟩
  · rw [collectIds_before_or_after.1 _ hplain]
    decide +kernel
  · exact (collectIds_before_or_after.2 _ _ hplain hpasses).1

end Pipeline

end SvgAssets
