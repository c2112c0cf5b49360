/-
# SvgAssets.Proofs.Pipeline.LayerRuns -- one layer after the other

If no stage depends on a stage of a higher layer, the plan of a run falls into the plans of the
layers. Two plans may stand behind one another where the stages of the first one are of lower layers
than those of the second and depend on none of them (`IsPlan.append`): in front, what is free goes
before all of the second part; behind, everything of the first part is listed already, so that the
dependencies that a plan of one layer leaves out are met. As there is only one plan of all layers,
it is this one (`plan_eq_ok_iff_layers`). A plan of all layers leaves no cycle in any of them, so
the layers have plans whenever all of them together do.

Running the layers in turn is then running their plans in turn, each time on what the layers before
have left behind, as long as no stage changes the configuration that the plans are made from.
-/
import SvgAssets.Proofs.Pipeline.BuiltInPlan
import SvgAssets.Proofs.Pipeline.PlanFailure

namespace SvgAssets.Pipeline

/-! ## Plans behind one another -/

section

variable {lower upper front : List Stage} {s : Stage}

theorem IsNext.append_right (h : IsNext lower front s) (hs : s ∈ lower)
    (hlayers : ∀ s ∈ lower, ∀ t ∈ upper, s.layer.rank < t.layer.rank)
    (hdeps : ∀ s ∈ lower, ∀ t ∈ upper, ¬ s.DependsOn t) : IsNext (lower ++ upper) front s := by
  refine ⟨?_, ?_⟩
  · intro t ht hdep
    rcases List.mem_append.1 ht with ht | ht
    · exact h.free t ht hdep
    · exact absurd hdep (hdeps s hs t ht)
  · intro t ht hfront hfree
    rcases List.mem_append.1 ht with ht | ht
    · apply h.least t ht hfront
      intro u hu hdep
      exact hfree u (List.mem_append_left upper hu) hdep
    · -- Free or not, a stage of a higher layer comes later.
      exact Stage.goesBefore_iff.2 (.inl (hlayers s hs t ht))

theorem IsNext.append_left (h : IsNext upper front s) {p : List Stage}
    (hp : ∀ s, s ∈ p ↔ s ∈ lower) (hapart : ∀ s ∈ lower, s ∉ upper) :
    IsNext (lower ++ upper) (p ++ front) s := by
  refine ⟨?_, ?_⟩
  · intro t ht hdep
    rcases List.mem_append.1 ht with ht | ht
    · exact List.mem_append_left front ((hp t).2 ht)
    · exact List.mem_append_right p (h.free t ht hdep)
  · intro t ht hfront hfree
    rw [List.mem_append, not_or, hp] at hfront
    have ht : t ∈ upper := (List.mem_append.1 ht).resolve_left hfront.1
    apply h.least t ht hfront.2
    -- What `t` depends on and is not listed in front is of the second part.
    intro u hu hdep
    have hlisted := hfree u (List.mem_append_right lower hu) hdep
    rw [List.mem_append, hp] at hlisted
    exact hlisted.resolve_left fun hlower => hapart u hlower hu

/-- Plans of lower and of upper layers, one behind the other, are a plan of both. -/
theorem IsPlan.append {p q : List Stage} (hp : IsPlan lower p) (hq : IsPlan upper q)
    (hlayers : ∀ s ∈ lower, ∀ t ∈ upper, s.layer.rank < t.layer.rank)
    (hdeps : ∀ s ∈ lower, ∀ t ∈ upper, ¬ s.DependsOn t) : IsPlan (lower ++ upper) (p ++ q) := by
  have hmem : ∀ s, s ∈ p ↔ s ∈ lower := fun s => hp.perm.mem_iff
  have hapart : ∀ s ∈ lower, s ∉ upper := by
    intro s hs hs'
    have hlt := hlayers s hs s hs'
    omega
  refine ⟨hp.perm.append hq.perm, ?_⟩
  intro front s back h
  rcases List.append_eq_append_iff.1 h with ⟨rest, rfl, hrest⟩ | ⟨rest, hrest, hback⟩
  · exact (hq.next rest s back hrest).append_left hmem hapart
  · cases rest with
    | nil =>
      -- The last place of the first part is the first place of the second.
      rw [List.append_nil] at hrest
      subst hrest
      have hnext := (hq.next [] s back hback.symm).append_left hmem hapart
      simpa using hnext
    | cons t rest =>
      obtain ⟨rfl, -⟩ := List.cons.inj hback
      have hs : s ∈ lower := (hmem s).1 (by simp [hrest])
      exact (hp.next front s rest hrest).append_right hs hlayers hdeps

/-- The plans of layers that go upwards, one behind the other, are a plan of these layers. -/
theorem isPlan_flatMap {stagesOf planOf : Layer → List Stage}
    (hplans : ∀ l, IsPlan (stagesOf l) (planOf l)) (hlayer : ∀ l, ∀ s ∈ stagesOf l, s.layer = l)
    (hdeps : ∀ l m, ∀ s ∈ stagesOf l, ∀ t ∈ stagesOf m, s.DependsOn t → m.rank ≤ l.rank)
    {layers : List Layer} (hup : layers.Pairwise fun l m => l.rank < m.rank) :
    IsPlan (layers.flatMap stagesOf) (layers.flatMap planOf) := by
  induction layers with
  | nil => exact ⟨.refl _, by simp⟩
  | cons l layers ih =>
    obtain ⟨hl, hup⟩ := List.pairwise_cons.1 hup
    refine (hplans l).append (ih hup) ?_ ?_
    · intro s hs t ht
      obtain ⟨m, hm, ht⟩ := List.mem_flatMap.1 ht
      rw [hlayer l s hs, hlayer m t ht]
      exact hl m hm
    · intro s hs t ht hdep
      obtain ⟨m, hm, ht⟩ := List.mem_flatMap.1 ht
      have hle := hdeps l m s hs t ht hdep
      have hlt := hl m hm
      omega

end

namespace Layer

theorem mem_all (l : Layer) : l ∈ all := by
  cases l <;> decide

theorem pairwise_rank_all : all.Pairwise fun l m => l.rank < m.rank := by
  decide

end Layer

namespace Registry

variable {r : Registry} {config : Config}

/-- No stage depends on a stage of a higher layer. -/
def IsLayered (r : Registry) : Prop :=
  ∀ s ∈ r.stages, ∀ t ∈ r.stages, s.DependsOn t → t.layer.rank ≤ s.layer.rank

/-! ## The plans of the layers -/

/-- The layers have all the selected stages between them. -/
theorem flatMap_selected_perm :
    (Layer.all.flatMap fun l => r.selected config (some l)).Perm (r.selected config none) := by
  have hnodup : ∀ layer, (r.selected config layer).Nodup := fun layer =>
    (r.nodup_ids_selected config layer).of_map
  refine (List.perm_ext_iff_of_nodup ?_ (hnodup none)).2 ?_
  · rw [List.nodup_flatMap]
    refine ⟨fun l _ => hnodup (some l), ?_⟩
    -- No stage is of two layers.
    refine Layer.pairwise_rank_all.imp ?_
    intro l m hlt s hl hm
    obtain ⟨-, -, hl⟩ := mem_selected.1 hl
    obtain ⟨-, -, hm⟩ := mem_selected.1 hm
    rw [← hl l rfl, hm m rfl] at hlt
    omega
  · intro s
    simp only [List.mem_flatMap, mem_selected]
    constructor
    · rintro ⟨l, -, hs, henabled, -⟩
      exact ⟨hs, henabled, by simp⟩
    · rintro ⟨hs, henabled, -⟩
      exact ⟨s.layer, Layer.mem_all _, hs, henabled, by simp⟩

/-- The plans of the layers, one behind the other, are a plan of all of them. -/
theorem plan_of_layers (hlayered : r.IsLayered) {planOf : Layer → List Stage}
    (h : ∀ l, r.plan config (some l) = .ok (planOf l)) :
    r.plan config none = .ok (Layer.all.flatMap planOf) := by
  obtain ⟨hclosed, -⟩ := plan_eq_ok_iff.1 (h .validation)
  refine plan_eq_ok_iff.2 ⟨hclosed, IsPlan.congr ?_ flatMap_selected_perm⟩
  refine isPlan_flatMap (fun l => (plan_eq_ok_iff.1 (h l)).2) ?_ ?_ Layer.pairwise_rank_all
  · intro l s hs
    exact (mem_selected.1 hs).2.2 l rfl
  · intro l m s hs t ht hdep
    obtain ⟨hs, -, hl⟩ := mem_selected.1 hs
    obtain ⟨ht, -, hm⟩ := mem_selected.1 ht
    rw [← hl l rfl, ← hm m rfl]
    exact hlayered s hs t ht hdep

/-- What has a plan has one for each layer: a cycle in a layer would be one among all stages. -/
theorem exists_plan_of_layer {plan : List Stage} (h : r.plan config none = .ok plan) (l : Layer) :
    ∃ plan, r.plan config (some l) = .ok plan := by
  obtain ⟨hclosed, -⟩ := plan_eq_ok_iff.1 h
  apply exists_plan_eq_ok hclosed
  intro cycle hcycle hmem
  have hfails : ∃ e, r.plan config none = .error e := by
    refine exists_plan_eq_error_iff.2 (.inr ⟨cycle, hcycle, ?_⟩)
    intro s hs
    obtain ⟨hs, henabled, -⟩ := mem_selected.1 (hmem s hs)
    exact mem_selected.2 ⟨hs, henabled, by simp⟩
  obtain ⟨e, he⟩ := hfails
  rw [h] at he
  cases he

/-- **The plan of all layers is the plans of the layers, one behind the other.** -/
theorem plan_eq_ok_iff_layers (hlayered : r.IsLayered) {plan : List Stage} :
    r.plan config none = .ok plan ↔
      ∃ planOf : Layer → List Stage, (∀ l, r.plan config (some l) = .ok (planOf l)) ∧
        plan = Layer.all.flatMap planOf := by
  constructor
  · intro h
    choose planOf hplans using exists_plan_of_layer h
    refine ⟨planOf, hplans, ?_⟩
    rw [plan_of_layers hlayered hplans] at h
    exact (Except.ok.inj h).symm
  · rintro ⟨planOf, hplans, rfl⟩
    exact plan_of_layers hlayered hplans

theorem exists_plan_error_iff_layers (hlayered : r.IsLayered) :
    (∃ e, r.plan config none = .error e) ↔ ∃ l e, r.plan config (some l) = .error e := by
  constructor
  · rintro ⟨e, he⟩
    by_contra hnone
    have hplans : ∀ l, ∃ plan, r.plan config (some l) = .ok plan := by
      intro l
      cases hplan : r.plan config (some l) with
      | ok plan => exact ⟨plan, rfl⟩
      | error e => exact absurd ⟨l, e, hplan⟩ hnone
    choose planOf hplans using hplans
    rw [plan_of_layers hlayered hplans] at he
    cases he
  · rintro ⟨l, e, he⟩
    cases hplan : r.plan config none with
    | error e => exact ⟨e, rfl⟩
    | ok plan =>
      obtain ⟨planL, hplanL⟩ := exists_plan_of_layer hplan l
      rw [hplanL] at he
      cases he

/-! ## Running layers in turn -/

/-- Run the layers in turn, up to the first one in which a stage fails. The plan of each layer is
made when it is its turn. -/
def runLayers (r : Registry) (layers : List Layer) (p : Progress) :
    Except PlanError (Attempt StageFailure Notice Progress) :=
  match layers with
  | [] => .ok (.done p)
  | l :: layers => do
    let a ← r.run (some l) p
    match a.failure with
    | some _ => return a
    | none =>
      let b ← r.runLayers layers a.state
      return a.andThen fun _ => b

theorem runLayers_cons_of_some {l : Layer} {layers : List Layer} {p : Progress}
    {a : Attempt StageFailure Notice Progress} {e : StageFailure}
    (hrun : r.run (some l) p = .ok a) (hfailure : a.failure = some e) :
    r.runLayers (l :: layers) p = .ok a := by
  unfold runLayers
  rw [hrun]
  show (match a.failure with | some _ => _ | none => _) = _
  rw [hfailure]
  rfl

theorem runLayers_cons_of_none {l : Layer} {layers : List Layer} {p : Progress}
    {a b : Attempt StageFailure Notice Progress} (hrun : r.run (some l) p = .ok a)
    (hfailure : a.failure = none) (hrest : r.runLayers layers a.state = .ok b) :
    r.runLayers (l :: layers) p = .ok (a.andThen fun _ => b) := by
  unfold runLayers
  rw [hrun]
  show (match a.failure with | some _ => _ | none => _) = _
  rw [hfailure, hrest]
  rfl

/-- Running layers in turn is running their plans in turn. -/
theorem runLayers_eq {planOf : Layer → List Stage}
    (hplans : ∀ l, r.plan config (some l) = .ok (planOf l))
    (hkeeps : ∀ l, ∀ s ∈ planOf l, s.KeepsConfig) (layers : List Layer) {p : Progress}
    (hp : p.config = config) :
    r.runLayers layers p = .ok (p.runStages (layers.flatMap planOf)) := by
  induction layers generalizing p with
  | nil => rfl
  | cons l layers ih =>
    have hrun : r.run (some l) p = .ok (p.runStages (planOf l)) := by
      apply run_of_plan
      rw [hp]
      exact hplans l
    rw [List.flatMap_cons, Progress.runStages_append]
    cases hfailure : (p.runStages (planOf l)).failure with
    | some e =>
      rw [runLayers_cons_of_some hrun hfailure, Attempt.andThen_of_some hfailure]
    | none =>
      -- The next layer is planned for the configuration that this one was planned for.
      have hconfig : (p.runStages (planOf l)).state.config = config := by
        rw [Progress.config_runStages (hkeeps l), hp]
      rw [runLayers_cons_of_none hrun hfailure (ih hconfig)]
      unfold Attempt.andThen
      rw [hfailure]

/-- **Running the layers in turn is running everything.** If no stage depends on a stage of a higher
layer, there is a plan exactly if every layer has one, and the plans of the layers, one behind the
other, are that plan. If moreover no stage changes the configuration, then from any progress,
whatever it has noted already, the layers that run in turn, up to the first one that fails, come to
the same end as the whole plan and report the same. -/
theorem runLayers_eq_run (r : Registry) (hlayered : r.IsLayered) (config : Config) :
    ((∃ e, r.plan config none = .error e) ↔ ∃ l e, r.plan config (some l) = .error e) ∧
    (∀ plan, r.plan config none = .ok plan →
      ∃ planOf : Layer → List Stage, (∀ l, r.plan config (some l) = .ok (planOf l)) ∧
        plan = Layer.all.flatMap planOf) ∧
    ((∀ s ∈ r.stages, s.KeepsConfig) → ∀ (p : Progress) (plan : List Stage),
      r.plan p.config none = .ok plan →
        ∃ a, r.run none p = .ok a ∧ r.runLayers Layer.all p = .ok a) := by
  refine ⟨exists_plan_error_iff_layers hlayered, ?_, ?_⟩
  · intro plan h
    exact (plan_eq_ok_iff_layers hlayered).1 h
  · intro hkeeps p plan h
    obtain ⟨planOf, hplans, rfl⟩ := (plan_eq_ok_iff_layers hlayered).1 h
    refine ⟨_, run_of_plan h, runLayers_eq hplans ?_ Layer.all rfl⟩
    intro l s hs
    exact hkeeps s (mem_stages_of_plan (hplans l) hs)

/-- An image that passes all layers; what was noted of an earlier run says that it failed. -/
def resumed : Progress :=
  { Progress.ofSource {} ⟨[], [], "<svg width=\"1\" height=\"1\"><g/></svg>".toList, [], []⟩ with
    failures := [("S4.02".toList, .error "stopped")], isSkipped := true }

/-- The instance is a run of the built-in stages through all five layers, which goes on although an
earlier run failed. -/
theorem runLayers_eq_run_builtIn :
    ∃ (planOf : Layer → List Stage) (a : Attempt StageFailure Notice Progress),
      (∀ l, builtIn.plan resumed.config (some l) = .ok (planOf l)) ∧
        builtIn.plan resumed.config none = .ok (Layer.all.flatMap planOf) ∧
        builtIn.run none resumed = .ok a ∧ builtIn.runLayers Layer.all resumed = .ok a ∧
        a.failure = none ∧ a.state.completed = (Layer.all.flatMap planOf).map Stage.id ∧
        a.state.failures = resumed.failures ∧ a.state.asset.record.isSome = true := by
  have hlayered : builtIn.IsLayered := by
    unfold IsLayered
    decide +kernel
  obtain ⟨-, hplans, hruns⟩ := runLayers_eq_run builtIn hlayered resumed.config
  have hplan := plan_builtIn resumed.config
  obtain ⟨planOf, hlayers, heq⟩ := hplans _ hplan
  have hkeeps : ∀ s ∈ builtIn.stages, s.KeepsConfig := fun s hs => (keeps_builtInStages s hs).1
  obtain ⟨a, hrun, hrunLayers⟩ := hruns hkeeps resumed _ hplan
  obtain rfl := Except.ok.inj ((run_of_plan hplan).symm.trans hrun)
  refine ⟨planOf, _, hlayers, heq ▸ hplan, hrun, hrunLayers, ?_⟩
  rw [← heq]
  decide +kernel

end Registry

end SvgAssets.Pipeline
