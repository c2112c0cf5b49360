/-
# SvgAssets.Proofs.Pipeline.Origin -- what a record is made of

The stages change an asset step by step, and most of what they leave behind is computed from the
source alone: the geometry from the markup as it was read, the styles from the same markup, the
variables from the markup without styles and scripts and from the scoped styles. `IsMadeFrom` says
so for a whole run, and every record of the built-in stages comes about in this way
(`exists_isMadeFrom`). What a record holds is then a matter of these parts, and no more of the order
of the stages.
-/
import SvgAssets.Proofs.Pipeline.BuiltInPlan

namespace SvgAssets.Pipeline

open Template

/-- Markup without its styles and scripts. -/
def bareMarkup (s : Text) : Text := Markup.removeScripts (Markup.removeStyles s)

/-- How the identifiers of a source are renamed. -/
def renamingOf (config : Config) (source : Source) : Markup.Renaming :=
  ⟨(Markup.collectIds (bareMarkup source.svg)).map normalize, source.hash, config.instanceVariable⟩

/-- The markup of a record: declarations are reduced to references, identifiers are renamed, and
the rest is compacted without the root element. -/
def finishedMarkup (config : Config) (source : Source) : Text :=
  Markup.unwrap (Markup.compact ((renamingOf config source).apply
    (normalize (bareMarkup source.svg))))

/-- The variables that markup and then styles declare. -/
def variablesOf (markup css : Text) : Attempt ScanError Redeclaration Variables :=
  (Variables.empty.takeIn markup).andThen fun v => v.takeIn css

/-- The asset that the stages leave to the last one, which assembles the record. -/
def finishedAsset (config : Config) (source : Source) (g : Geometry) (css : Text) : Asset where
  source :=
    { source with
      svg := finishedMarkup config source
      css := Stylesheet.renameReferences (renamingOf config source) (normalize css) }
  geometry := some g
  declared := (variablesOf (bareMarkup source.svg) css).state
  ids := Markup.collectIds (bareMarkup source.svg)
  record := none

/-- The source passes all stages, with this geometry and these scoped styles, and the record is made
of what comes out. -/
structure IsMadeFrom (config : Config) (source : Source) (g : Geometry) (css : Text)
    (r : AssetRecord) : Prop where
  signature : Markup.hasSignature source.svg = true
  strictXml : config.strictXml = true → Markup.malformation? source.svg = none
  geometry : Geometry.infer source.svg config.percentFallback = .ok (some g)
  styles : Stylesheet.ofDocument source.svg ((Asset.ofSource source).scopeId config)
    config.instanceVariable = .ok css
  scanned : (variablesOf (bareMarkup source.svg) css).failure = none
  record : r = (finishedAsset config source g css).assemble config

/-! ## Stages that come to their end -/

namespace Work

variable {config : Config} {a : Asset}

theorem signature_completed (h : (signature config a).failure = none) :
    Markup.hasSignature a.source.svg = true ∧ (signature config a).state = a := by
  unfold signature at h ⊢
  split
  · rename_i hsignature
    exact ⟨hsignature, rfl⟩
  · rename_i hsignature
    rw [if_neg hsignature] at h
    cases h

theorem strictXml_completed (h : (strictXml config a).failure = none) :
    Markup.malformation? a.source.svg = none ∧ (strictXml config a).state = a := by
  unfold strictXml at h ⊢
  split at h
  · rename_i hnone
    exact ⟨hnone, rfl⟩
  · cases h

theorem geometry_completed (h : (geometry config a).failure = none) :
    ∃ g, Geometry.infer a.source.svg config.percentFallback = .ok (some g) ∧
      (geometry config a).state = { a with geometry := some g } := by
  unfold geometry at h ⊢
  split at h
  · cases h
  · cases h
  · rename_i g hinfer
    exact ⟨g, hinfer, rfl⟩

theorem styles_completed (h : (styles config a).failure = none) :
    ∃ css, Stylesheet.ofDocument a.source.svg (a.scopeId config) config.instanceVariable = .ok css ∧
      (styles config a).state = (a.withCss css).withSvg (Markup.removeStyles a.source.svg) := by
  unfold styles at h ⊢
  split at h
  · cases h
  · rename_i css hstyles
    exact ⟨css, hstyles, rfl⟩

/-- Without identifiers there is nothing to rename, so the renaming can be taken as done. -/
theorem state_namespacing (config : Config) (a : Asset) :
    (namespacing config a).state =
      let names : Markup.Renaming := ⟨a.ids.map normalize, a.source.hash, config.instanceVariable⟩
      (a.withSvg (names.apply a.source.svg)).withCss
        (Stylesheet.renameReferences names a.source.css) := by
  unfold namespacing
  split
  · rename_i hnone
    rw [List.isEmpty_iff] at hnone
    have happly (s : Text) : Markup.Renaming.apply ⟨a.ids.map normalize, a.source.hash,
        config.instanceVariable⟩ s = s := by
      rw [hnone]
      rfl
    have hstyles (s : Text) : Stylesheet.renameReferences ⟨a.ids.map normalize, a.source.hash,
        config.instanceVariable⟩ s = s := by
      rw [hnone, Stylesheet.renameReferences]
      exact if_pos (Bool.or_true _)
    show a = (a.withSvg (Markup.Renaming.apply _ _)).withCss (Stylesheet.renameReferences _ _)
    rw [happly, hstyles]
    rfl
  · rfl

end Work

/-! ## All stages -/

/-- The first two stages, of which the second may be left out, change nothing but the books. -/
theorem checked_of_passes {config : Config} {source : Source} {x : Subject}
    (h : Passes ((builtInStages.take 2).filter fun s => s.isEnabled config)
      (.ofSource config source) x) :
    Markup.hasSignature source.svg = true ∧
      (config.strictXml = true → Markup.malformation? source.svg = none) ∧
      x.config = config ∧ x.asset = .ofSource source := by
  have hstages : (builtInStages.take 2).filter (fun s => s.isEnabled config) =
      builtInStages.take 1 ++ if config.strictXml then (builtInStages.drop 1).take 1 else [] := by
    cases hstrict : config.strictXml <;> simp [builtInStages, hstrict]
  rw [hstages] at h
  cases h with
  | cons hsignature h =>
  replace hsignature : (Work.signature config (.ofSource source)).failure = none := hsignature
  obtain ⟨hsigned, hstate⟩ := Work.signature_completed hsignature
  replace h : Passes (if config.strictXml then (builtInStages.drop 1).take 1 else [])
    ⟨_, config, (Work.signature config (.ofSource source)).state⟩ x := h
  rw [hstate] at h
  cases hstrict : config.strictXml with
  | false =>
    rw [hstrict] at h
    cases h
    exact ⟨hsigned, by simp, rfl, rfl⟩
  | true =>
    rw [hstrict] at h
    cases h with
    | cons hxml h =>
    obtain ⟨hnone, hstate⟩ := Work.strictXml_completed hxml
    cases h with
    | nil => exact ⟨hsigned, fun _ => hnone, rfl, hstate⟩

/-- The stages from the geometry on are always enabled, and make the finished asset. -/
theorem exists_finishedAsset_of_passes {source : Source} {x y : Subject}
    (h : Passes (builtInStages.drop 2) x y) (hx : x.asset = .ofSource source) :
    ∃ g css, Geometry.infer source.svg x.config.percentFallback = .ok (some g) ∧
      Stylesheet.ofDocument source.svg ((Asset.ofSource source).scopeId x.config)
        x.config.instanceVariable = .ok css ∧
      (variablesOf (bareMarkup source.svg) css).failure = none ∧
      y.asset.record = some ((finishedAsset x.config source g css).assemble x.config) := by
  obtain ⟨books, config, asset⟩ := x
  obtain rfl : asset = .ofSource source := hx
  cases h with
  | cons hgeometry h =>
  obtain ⟨g, hinfer, hstate⟩ := Work.geometry_completed hgeometry
  replace h : Passes (builtInStages.drop 3)
    ⟨_, config, (Work.geometry config (.ofSource source)).state⟩ y := h
  rw [hstate] at h
  cases h with
  | cons hstyles h =>
  obtain ⟨css, hcss, hstate⟩ := Work.styles_completed hstyles
  replace h : Passes (builtInStages.drop 4)
    ⟨_, config, (Work.styles config { Asset.ofSource source with geometry := some g }).state⟩ y := h
  rw [hstate] at h
  -- The scripts are dropped and the identifiers collected, which cannot fail.
  cases h with
  | cons _ h =>
  cases h with
  | cons _ h =>
  cases h with
  | cons hscanning h =>
  have hscanned : (variablesOf (bareMarkup source.svg) css).failure = none :=
    Option.map_eq_none_iff.1 hscanning
  refine ⟨g, css, hinfer, hcss, hscanned, ?_⟩
  cases h with
  | cons _ h =>
  cases h with
  | cons _ h =>
  cases h with
  | cons _ h =>
  cases h with
  | cons _ h =>
  cases h with
  | nil =>
  show some ((Work.compaction config (Work.namespacing config _).state).state.assemble config) = _
  rw [Work.state_namespacing]
  rfl

/-- **Every record is made of its source** in the way that the stages prescribe, and of nothing
else. -/
theorem exists_isMadeFrom {config : Config} {source : Source}
    {a : Attempt StageFailure Notice Progress} (hprocess : builtIn.process config source = .ok a)
    {r : AssetRecord} (hresult : a.state.result? = some r) :
    ∃ g css, IsMadeFrom config source g css r := by
  obtain ⟨hpasses, hrecord⟩ := passes_of_result hprocess hresult
  have hstages : (builtInStages.filter fun s => s.isEnabled config) =
      (builtInStages.take 2).filter (fun s => s.isEnabled config) ++ builtInStages.drop 2 := by
    rw [← List.take_append_drop 2 builtInStages, List.filter_append]
    rfl
  rw [hstages] at hpasses
  obtain ⟨x, hfront, hback⟩ := hpasses.of_append
  obtain ⟨hsignature, hstrict, rfl, hx⟩ := checked_of_passes hfront
  obtain ⟨g, css, hinfer, hstyles, hscanned, hassembled⟩ :=
    exists_finishedAsset_of_passes hback hx
  exact ⟨g, css, hsignature, hstrict, hinfer, hstyles, hscanned,
    Option.some.inj (hrecord.symm.trans hassembled)⟩

/-- The record of a run, if the stages can be planned and the image is accepted. -/
def record? (x : Except PlanError (Attempt StageFailure Notice Progress)) : Option AssetRecord :=
  x.toOption.bind fun a => a.state.result?

theorem record?_eq_some_iff {x : Except PlanError (Attempt StageFailure Notice Progress)}
    {r : AssetRecord} : record? x = some r ↔ ∃ a, x = .ok a ∧ a.state.result? = some r := by
  cases x <;> simp [record?, Except.toOption]

/-- A run that is tried out, and whose record is found to be as wanted, yields such a record. -/
theorem exists_result_of_any {x : Except PlanError (Attempt StageFailure Notice Progress)}
    {p : AssetRecord → Bool} (h : (record? x).any p = true) :
    ∃ a r, x = .ok a ∧ a.state.result? = some r ∧ p r = true := by
  obtain ⟨r, hfound, hp⟩ := (Option.any_eq_true _ _).1 h
  obtain ⟨a, hx, hresult⟩ := record?_eq_some_iff.1 hfound
  exact ⟨a, r, hx, hresult, hp⟩

end SvgAssets.Pipeline
