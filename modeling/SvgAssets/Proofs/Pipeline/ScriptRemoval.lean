/-
# SvgAssets.Proofs.Pipeline.ScriptRemoval -- whether a script reaches a record

The stage that drops scripts is one of the first that change the markup, and it goes over it once.
Every other stage but compaction makes none of the words that script tags are made of
(`Work.MakesNoWord`), so they keep the markup free of scripts, and keep tags whole; and compaction
makes no script of tags that are whole and whose names no white space precedes. So no script is left
in a record where no tag of a script breaks off in front of another tag (`tokens_svg_of_result`).
Where one does, what is taken out joins the halves (`script_in_record`).
-/
import SvgAssets.Pipeline.Source
import SvgAssets.Proofs.Markup.ElementPasses
import SvgAssets.Proofs.Pipeline.Origin

namespace SvgAssets.Pipeline

open Markup Text

/-- The tags of scripts are whole, no name of a tag has white space in front of it, and what is put
into names of identifiers holds no bracket. -/
structure Asset.IsGuarded (a : Asset) (config : Config) : Prop where
  whole : HasWholeTags scriptName a.source.svg
  unspaced : IsUnspaced a.source.svg
  hash_chars : ∀ c ∈ a.source.hash, c ∉ angles
  instanceVariable_chars : ∀ c ∈ config.instanceVariable, c ∉ angles

/-! ## One stage -/

namespace Work

/-- The work brings no part of a script tag into being, and leaves the hash as it is. -/
def MakesNoWord (work : Work) : Prop :=
  ∀ config a, a.IsGuarded config →
    Keeps (IsWord scriptName) a.source.svg (work config a).state.source.svg ∧
      (work config a).state.source.hash = a.source.hash

theorem makesNoWord_of_source {work : Work}
    (h : ∀ config a, (work config a).state.source = a.source) : work.MakesNoWord := by
  intro config a _
  rw [h]
  exact ⟨.refl _ _, rfl⟩

theorem signature_makesNoWord : signature.MakesNoWord := by
  refine makesNoWord_of_source fun config a => ?_
  unfold signature
  split <;> rfl

theorem strictXml_makesNoWord : strictXml.MakesNoWord := by
  refine makesNoWord_of_source fun config a => ?_
  unfold strictXml
  split <;> rfl

theorem geometry_makesNoWord : geometry.MakesNoWord := by
  refine makesNoWord_of_source fun config a => ?_
  unfold geometry
  split <;> rfl

theorem styles_makesNoWord : styles.MakesNoWord := by
  intro config a ha
  unfold styles
  split
  · exact ⟨.of_isInfix List.nil_infix, rfl⟩
  · exact ⟨keeps_removeElements isTagName_scriptName styleName ha.whole, rfl⟩

theorem scripts_makesNoWord : scripts.MakesNoWord := fun _ _ ha =>
  ⟨keeps_removeElements isTagName_scriptName scriptName ha.whole, rfl⟩

theorem placeholders_makesNoWord : placeholders.MakesNoWord := fun _ a _ =>
  ⟨keeps_of_edits isTagName_scriptName (edits_normalize a.source.svg), rfl⟩

theorem namespacing_makesNoWord : namespacing.MakesNoWord := by
  intro config a ha
  unfold namespacing
  split
  · exact ⟨.refl _ _, rfl⟩
  · exact ⟨keeps_apply isTagName_scriptName ha.hash_chars ha.instanceVariable_chars _, rfl⟩

/-- Such work keeps an asset guarded. -/
theorem MakesNoWord.isGuarded {work : Work} (h : work.MakesNoWord) {config : Config} {a : Asset}
    (ha : a.IsGuarded config) : (work config a).state.IsGuarded config := by
  obtain ⟨hkeeps, hhash⟩ := h config a ha
  exact ⟨ha.whole.of_keeps hkeeps, ha.unspaced.of_keeps isTagName_scriptName hkeeps,
    by rw [hhash]; exact ha.hash_chars, ha.instanceVariable_chars⟩

/-- It makes no script. -/
theorem MakesNoWord.not_holdsElement {work : Work} (h : work.MakesNoWord) {config : Config}
    {a : Asset} (ha : a.IsGuarded config) (hnone : ¬ HoldsElement scriptName a.source.svg) :
    ¬ HoldsElement scriptName (work config a).state.source.svg :=
  fun hold => hnone (holdsElement_of_keeps (h config a ha).1 hold)

end Work

/-! ## All stages -/

/-- The stage that drops scripts, the one that compacts, and the last one, among stages that make no
part of a script tag. -/
theorem exists_stages_builtIn (config : Config) : ∃ front scripts middle compaction assembly,
    (builtInStages.filter fun s => s.isEnabled config) =
      front ++ scripts :: (middle ++ [compaction, assembly]) ∧
    scripts.work = Work.scripts.onSubject ∧ compaction.work = Work.compaction.onSubject ∧
    assembly.work = Work.assembly.onSubject ∧
    ∀ s ∈ front ++ middle, ∃ work : Work, s.work = work.onSubject ∧ work.MakesNoWord := by
  have hstages : builtInStages = builtInStages.take 4 ++ builtInStages.drop 4 :=
    (List.take_append_drop 4 _).symm
  have hfront : ∀ s ∈ builtInStages.take 4, ∃ work : Work, s.work = work.onSubject ∧
      work.MakesNoWord := by
    simp only [builtInStages, List.take_succ_cons, List.take_zero, List.forall_mem_cons]
    exact ⟨⟨_, rfl, Work.signature_makesNoWord⟩, ⟨_, rfl, Work.strictXml_makesNoWord⟩,
      ⟨_, rfl, Work.geometry_makesNoWord⟩, ⟨_, rfl, Work.styles_makesNoWord⟩, by simp⟩
  have hmiddle : ∀ s ∈ (builtInStages.drop 5).take 4, ∃ work : Work, s.work = work.onSubject ∧
      work.MakesNoWord := by
    simp only [builtInStages, List.drop_succ_cons, List.drop_zero, List.take_succ_cons,
      List.take_zero, List.forall_mem_cons]
    exact ⟨⟨_, rfl, Work.makesNoWord_of_source fun _ _ => rfl⟩,
      ⟨_, rfl, Work.makesNoWord_of_source fun _ _ => rfl⟩, ⟨_, rfl, Work.placeholders_makesNoWord⟩,
      ⟨_, rfl, Work.namespacing_makesNoWord⟩, by simp⟩
  refine ⟨(builtInStages.take 4).filter fun s => s.isEnabled config, builtInStages[4],
    (builtInStages.drop 5).take 4, builtInStages[9], builtInStages[10], ?_, rfl, rfl, rfl, ?_⟩
  · conv_lhs => rw [hstages, List.filter_append]
    rfl
  · intro s hs
    rcases List.mem_append.1 hs with hs | hs
    · exact hfront s (List.mem_filter.1 hs).1
    · exact hmiddle s hs

/-- Stages that make no part of a script tag keep what guards an asset, and make no script. -/
theorem Passes.isGuarded {config : Config} {stages : List Stage}
    (hstages : ∀ s ∈ stages, ∃ work : Work, s.work = work.onSubject ∧ work.MakesNoWord)
    {x y : Subject} (h : Passes stages x y) (hconfig : x.config = config)
    (hx : x.asset.IsGuarded config) :
    y.config = config ∧ y.asset.IsGuarded config ∧
      (¬ HoldsElement scriptName x.asset.source.svg →
        ¬ HoldsElement scriptName y.asset.source.svg) := by
  refine h.preserves (P := fun y => y.config = config ∧ y.asset.IsGuarded config ∧
    (¬ HoldsElement scriptName x.asset.source.svg →
      ¬ HoldsElement scriptName y.asset.source.svg)) ?_ ⟨hconfig, hx, id⟩
  rintro s hs y ⟨rfl, hy, hnone⟩
  obtain ⟨work, hwork, hword⟩ := hstages s hs
  rw [hwork]
  exact ⟨rfl, hword.isGuarded hy, fun hscript => hword.not_holdsElement hy (hnone hscript)⟩

/-- **No script reaches a record** where the tags of scripts are whole, no white space stands in
front of names of tags, and neither the hash nor the instance variable holds an angle bracket. -/
theorem tokens_svg_of_result {config : Config} {source : Source}
    {a : Attempt StageFailure Notice Progress} (hprocess : builtIn.process config source = .ok a)
    {r : AssetRecord} (hresult : a.state.result? = some r)
    (hwhole : HasWholeTags scriptName source.svg) (hunspaced : IsUnspaced source.svg)
    (hhash : ∀ c ∈ source.hash, c ∉ angles)
    (hvariable : ∀ c ∈ config.instanceVariable, c ∉ angles) :
    (Block.pattern scriptName).tokens r.svg = [] := by
  obtain ⟨hrecord, -⟩ := result_builtIn hprocess hresult
  obtain ⟨hpasses, -⟩ := passes_of_result hprocess hresult
  obtain ⟨front, scripts, middle, compaction, assembly, hplan, hscripts, hcompaction, hassembly,
    hwork⟩ := exists_stages_builtIn config
  rw [hplan] at hpasses
  obtain ⟨x, hfront, hrest⟩ := hpasses.of_append
  obtain ⟨hx, hguarded, -⟩ := hfront.isGuarded (fun s hs => hwork s (List.mem_append_left _ hs)) rfl
    ⟨hwhole, hunspaced, hhash, hvariable⟩
  cases hrest with
  | cons _ hrest =>
    -- The scripts are dropped here, and the stages behind make none.
    rw [hscripts] at hrest
    obtain ⟨y, hmiddle, hends⟩ := hrest.of_append
    obtain ⟨-, hy, hnone⟩ := hmiddle.isGuarded (fun s hs => hwork s (List.mem_append_right _ hs)) hx
      (Work.scripts_makesNoWord.isGuarded hguarded)
    replace hnone := hnone (not_holdsElement_removeElements isTagName_scriptName hguarded.whole)
    cases hends with
    | cons _ hends =>
      cases hends with
      | cons _ hends =>
        generalize a.state.toSubject = z at hends hrecord
        cases hends
        have hsvg : r.svg = unwrap (compact y.asset.source.svg) := by
          rw [hrecord, hassembly, hcompaction]
          rfl
        rw [hsvg]
        exact tokens_eq_nil_of_not_holdsElement (not_holdsElement_unwrap_compact
          isTagName_scriptName hy.whole hy.unspaced hnone)

/-- An image with a script, a comment and an identifier that is referred to. -/
def scriptedMarkup : Text :=
  ("<svg width=\"1\" height=\"1\"><script>a()</script ><!-- b --> " ++
    "<g id=\"c\"/><use href=\"#c\"/></svg>").toList

/-- The script of the image is not in its record. -/
theorem tokens_svg_of_result_scripted :
    ∃ a r, builtIn.process {} (.ofText "svg/a.svg".toList scriptedMarkup "h1".toList) = .ok a ∧
      a.state.result? = some r ∧ (Block.pattern scriptName).tokens scriptedMarkup ≠ [] ∧
      (Block.pattern scriptName).tokens r.svg = [] := by
  obtain ⟨a, r, hprocess, hresult, -⟩ := exists_result_of_any (x := builtIn.process {}
    (.ofText "svg/a.svg".toList scriptedMarkup "h1".toList)) (p := fun _ => true)
    (by decide +kernel)
  refine ⟨a, r, hprocess, hresult, by decide +kernel, ?_⟩
  refine tokens_svg_of_result hprocess hresult ?_ ?_ (forall_mem_of_all rfl) (forall_mem_of_all rfl)
  · exact hasWholeTags_of_paired isTagName_scriptName (by decide +kernel)
  · exact isUnspaced_of_forall_mem (forall_mem_of_all (by decide +kernel))

/-- Where another script stands within the name of a script, taking it out joins the halves. -/
theorem script_in_record :
    ∃ a r, builtIn.process {} (.ofText "svg/a.svg".toList
        "<svg width=\"1\" height=\"1\"><scr<script></script>ipt>alert(1)</script></svg>".toList
        "h1".toList) = .ok a ∧
      a.state.result? = some r ∧ r.svg = "<script>alert(1)</script>".toList ∧
      (Block.pattern scriptName).tokens r.svg ≠ [] := by
  obtain ⟨a, r, hprocess, hresult, hsvg⟩ := exists_result_of_any (x := builtIn.process {}
    (.ofText "svg/a.svg".toList
      "<svg width=\"1\" height=\"1\"><scr<script></script>ipt>alert(1)</script></svg>".toList
      "h1".toList)) (p := fun r => r.svg == "<script>alert(1)</script>".toList) (by decide +kernel)
  rw [beq_iff_eq] at hsvg
  refine ⟨a, r, hprocess, hresult, hsvg, ?_⟩
  rw [hsvg]
  decide +kernel

end SvgAssets.Pipeline
