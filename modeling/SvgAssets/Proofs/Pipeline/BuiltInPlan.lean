/-
# SvgAssets.Proofs.Pipeline.BuiltInPlan -- what the built-in stages end with

The built-in stages are registered in the order in which they run, whatever the configuration
enables of them (`plan_builtIn`). The last one assembles the record, and none but one before it
touches the declared variables. So a record that comes out of the stages is the one that is
assembled from the asset they leave behind, and no name among its types holds a brace
(`result_builtIn`).
-/
import SvgAssets.Pipeline.BuiltIn
import SvgAssets.Proofs.Pipeline.RegistryPlan
import SvgAssets.Proofs.Pipeline.Running
import SvgAssets.Proofs.Template.DeclaredNames

namespace SvgAssets.Pipeline

/-! ## Stages that are in order already -/

namespace Stage

/-- `s` may stand anywhere in front of `t` in a plan. -/
def Precedes (s t : Stage) : Prop :=
  s.goesBefore t = true ∧ s.id ≠ t.id ∧ t.id ∉ s.dependencies

instance (s t : Stage) : Decidable (s.Precedes t) := inferInstanceAs (Decidable (_ ∧ _ ∧ _))

end Stage

theorem isPlan_of_precedes {stages : List Stage} (h : stages.Pairwise Stage.Precedes)
    (hself : ∀ s ∈ stages, s.id ∉ s.dependencies) : IsPlan stages stages := by
  refine ⟨.refl stages, ?_⟩
  intro front s back hstages
  subst hstages
  have hback : ∀ t ∈ back, s.Precedes t := (List.pairwise_cons.1 (List.pairwise_append.1 h).2.1).1
  refine ⟨?_, ?_⟩
  · intro t ht hdep
    rcases List.mem_append.1 ht with ht | ht
    · exact ht
    · exfalso
      rcases List.mem_cons.1 ht with rfl | ht
      · exact hself t (by simp) hdep
      · exact (hback t ht).2.2 hdep
  · intro t ht hfront _
    rcases List.mem_cons.1 ((List.mem_append.1 ht).resolve_left hfront) with rfl | ht
    · exact Stage.goesBefore_refl t
    · exact (hback t ht).1

/-- Stages are left in their order where each may stand in front of all that follow it. -/
theorem dependencyOrder_eq_self {stages : List Stage} (h : stages.Pairwise Stage.Precedes)
    (hself : ∀ s ∈ stages, s.id ∉ s.dependencies) : dependencyOrder stages = .ok stages := by
  have hids : (stages.map Stage.id).Nodup := List.pairwise_map.2 (h.imp fun hst => hst.2.1)
  exact (dependencyOrder_eq_ok_iff hids).2 (isPlan_of_precedes h hself)

/-! ## The plan of the built-in stages -/

theorem pairwise_precedes_builtInStages : builtInStages.Pairwise Stage.Precedes := by
  decide +kernel

/-- The plan of the built-in stages: those that are enabled, in the order of registration. -/
theorem plan_builtIn (config : Config) :
    builtIn.plan config none = .ok (builtInStages.filter fun s => s.isEnabled config) := by
  have hknown : builtIn.stages.find? (fun s => !(builtIn.missingOf s).isEmpty) = none := by
    rfl
  have hself : ∀ s ∈ builtInStages, s.id ∉ s.dependencies := by
    simp only [builtInStages, List.forall_mem_cons]
    decide +kernel
  have hselected : builtIn.selected config none =
      builtInStages.filter fun s => s.isEnabled config := by
    simp [Registry.selected, builtIn]
  rw [Registry.plan, hknown, hselected]
  refine dependencyOrder_eq_self ?_ ?_
  · exact pairwise_precedes_builtInStages.filter _
  · intro s hs
    exact hself s (List.mem_filter.1 hs).1

/-! ## What the stages leave behind -/

open Template.Descriptor (AreBraceFree)

namespace Work

/-- The work does not touch the declared variables. -/
def KeepsDeclared (work : Work) : Prop :=
  ∀ config a, (work config a).state.declared = a.declared

theorem signature_keepsDeclared : KeepsDeclared signature := by
  intro config a
  unfold signature
  split <;> rfl

theorem strictXml_keepsDeclared : KeepsDeclared strictXml := by
  intro config a
  unfold strictXml
  split <;> rfl

theorem geometry_keepsDeclared : KeepsDeclared geometry := by
  intro config a
  unfold geometry
  split <;> rfl

theorem styles_keepsDeclared : KeepsDeclared styles := by
  intro config a
  unfold styles
  split <;> rfl

theorem namespacing_keepsDeclared : KeepsDeclared namespacing := by
  intro config a
  unfold namespacing
  split <;> rfl

/-- What is kept by taking in a text is kept by scanning. -/
theorem scanning_declared {P : Template.Variables → Prop}
    (htake : ∀ v s, P v → P (v.takeIn s).state) {config : Config} {a : Asset}
    (h : P a.declared) : P (scanning config a).state.declared := by
  show P ((a.declared.takeIn a.source.svg).andThen fun v => v.takeIn a.source.css).state
  exact Attempt.andThen_preserves (htake _ _ h) fun v hv => htake v _ hv

end Work

/-- The built-in stages work on the asset, and only one of them declares variables. -/
theorem work_builtInStages : ∀ s ∈ builtInStages, ∃ work : Work, s.work = work.onSubject ∧
    (work = Work.scanning ∨ work.KeepsDeclared) := by
  simp only [builtInStages, List.forall_mem_cons]
  refine ⟨⟨_, rfl, .inr Work.signature_keepsDeclared⟩, ⟨_, rfl, .inr Work.strictXml_keepsDeclared⟩,
    ⟨_, rfl, .inr Work.geometry_keepsDeclared⟩, ⟨_, rfl, .inr Work.styles_keepsDeclared⟩,
    ⟨_, rfl, .inr fun _ _ => rfl⟩, ⟨_, rfl, .inr fun _ _ => rfl⟩, ⟨_, rfl, .inl rfl⟩,
    ⟨_, rfl, .inr fun _ _ => rfl⟩, ⟨_, rfl, .inr Work.namespacing_keepsDeclared⟩,
    ⟨_, rfl, .inr fun _ _ => rfl⟩, ⟨_, rfl, .inr fun _ _ => rfl⟩, by simp⟩

/-- The built-in stages leave the configuration and the books as they are. -/
theorem keeps_builtInStages : ∀ s ∈ builtInStages, s.KeepsConfig ∧ s.KeepsBooks := by
  intro s hs
  obtain ⟨work, hwork, -⟩ := work_builtInStages s hs
  unfold Stage.KeepsConfig Stage.KeepsBooks
  rw [hwork]
  exact ⟨fun _ => rfl, fun _ => rfl⟩

/-- A run of built-in stages from the start ends in one of the two ways. -/
theorem ends_of_builtInStages {plan : List Stage} (hstages : ∀ s ∈ plan, s ∈ builtInStages)
    (hids : (plan.map Stage.id).Nodup) (config : Config) (source : Source) :
    Progress.Ends plan (.ofSource config source)
      (Progress.runStages (.ofSource config source) plan).state
      (Progress.runStages (.ofSource config source) plan).failure :=
  Progress.ends_runStages (Progress.isFresh_ofSource config source)
    (fun s hs => (keeps_builtInStages s (hstages s hs)).2) hids

theorem work_declared {P : Template.Variables → Prop} (htake : ∀ v s, P v → P (v.takeIn s).state)
    {s : Stage} (hs : s ∈ builtInStages) {x : Subject} (h : P x.asset.declared) :
    P (s.work x).state.asset.declared := by
  obtain ⟨work, hwork, hdeclared⟩ := work_builtInStages s hs
  rw [hwork]
  show P (work x.config x.asset).state.declared
  rcases hdeclared with rfl | hkeeps
  · exact Work.scanning_declared htake h
  · rw [hkeeps]
    exact h

/-- A plan of the built-in stages ends with the one that assembles the record. -/
theorem exists_plan_builtIn (config : Config) : ∃ front last,
    builtIn.plan config none = .ok (front ++ [last]) ∧ last.work = Work.assembly.onSubject ∧
      ∀ s ∈ front ++ [last], s ∈ builtInStages := by
  have hstages : builtInStages = builtInStages.dropLast ++
      [builtInStages.getLast (by simp [builtInStages])] :=
    (List.dropLast_concat_getLast _).symm
  refine ⟨builtInStages.dropLast.filter fun s => s.isEnabled config,
    builtInStages.getLast (by simp [builtInStages]), ?_, rfl, ?_⟩
  · rw [plan_builtIn]
    conv_lhs => rw [hstages, List.filter_append]
    rfl
  · intro s hs
    rw [hstages]
    rcases List.mem_append.1 hs with hs | hs
    · exact List.mem_append_left _ (List.mem_filter.1 hs).1
    · exact List.mem_append_right _ hs

/-- Behind a whole plan of the built-in stages there is the record of the asset. -/
theorem record_of_passes {config : Config} {plan : List Stage} {x y : Subject}
    (hplan : builtIn.plan config none = .ok plan) (h : Passes plan x y) (hx : x.config = config) :
    y.asset.record = some (y.asset.assemble config) := by
  obtain ⟨front, last, hfront, hwork, hstages⟩ := exists_plan_builtIn config
  rw [hplan] at hfront
  obtain rfl := Except.ok.inj hfront
  obtain ⟨z, hz, hlast⟩ := h.of_append
  have hconfig : z.config = config := by
    refine hz.preserves (P := fun x => x.config = config) ?_ hx
    intro s hs x hx
    exact ((keeps_builtInStages s (hstages s (List.mem_append_left _ hs))).1 x).trans hx
  -- The last stage assembles the record under the configuration that the others left.
  cases hlast with
  | cons _ hnil =>
    cases hnil
    rw [hwork, ← hconfig]
    rfl

/-- A record comes from a run that passes all stages of its plan. -/
theorem passes_of_result {config : Config} {source : Source}
    {a : Attempt StageFailure Notice Progress} (hprocess : builtIn.process config source = .ok a)
    {r : AssetRecord} (hresult : a.state.result? = some r) :
    Passes (builtInStages.filter fun s => s.isEnabled config) (.ofSource config source)
        a.state.toSubject ∧ a.state.asset.record = some r := by
  obtain ⟨plan, hplan, rfl⟩ := Registry.exists_plan_of_run hprocess
  replace hplan : builtIn.plan config none = .ok plan := hplan
  have hids := Registry.nodup_ids_of_plan hplan
  rw [plan_builtIn] at hplan
  obtain rfl := Except.ok.inj hplan
  have hends := ends_of_builtInStages (fun s hs => (List.mem_filter.1 hs).1) hids config source
  generalize (Progress.runStages (.ofSource config source) _).state = q at hends hresult ⊢
  generalize (Progress.runStages (.ofSource config source) _).failure = f at hends
  cases hends with
  | passed hpasses => exact ⟨hpasses, hresult⟩
  | stopped _ _ _ =>
    -- The record of a run that failed is not given out.
    cases hresult

/-- What holds where nothing is declared, and is kept by taking in a text, holds of the variables of
the asset behind a record. -/
theorem declared_of_result {P : Template.Variables → Prop} (hempty : P .empty)
    (htake : ∀ v s, P v → P (v.takeIn s).state) {config : Config} {source : Source}
    {a : Attempt StageFailure Notice Progress} (hprocess : builtIn.process config source = .ok a)
    {r : AssetRecord} (hresult : a.state.result? = some r) : P a.state.asset.declared := by
  obtain ⟨hpasses, -⟩ := passes_of_result hprocess hresult
  refine hpasses.preserves (P := fun x => P x.asset.declared) ?_ hempty
  intro s hs x
  exact work_declared htake (List.mem_filter.1 hs).1

/-- **A record of the built-in stages is assembled from the asset that they leave behind**, and no
brace occurs in the names of its variables. -/
theorem result_builtIn {config : Config} {source : Source}
    {a : Attempt StageFailure Notice Progress} (hprocess : builtIn.process config source = .ok a)
    {r : AssetRecord} (hresult : a.state.result? = some r) :
    r = a.state.asset.assemble config ∧ AreBraceFree a.state.asset.declared.types := by
  obtain ⟨hpasses, hrecord⟩ := passes_of_result hprocess hresult
  refine ⟨?_, ?_⟩
  · exact Option.some.inj (hrecord.symm.trans (record_of_passes (plan_builtIn config) hpasses rfl))
  · exact declared_of_result (P := fun v => AreBraceFree v.types) trivial
      (fun _ s h => Template.Variables.takeIn_areBraceFree h s) hprocess hresult

end SvgAssets.Pipeline
