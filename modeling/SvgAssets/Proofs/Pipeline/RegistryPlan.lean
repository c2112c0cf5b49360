/-
# SvgAssets.Proofs.Pipeline.RegistryPlan -- the plans of a registry

A registry has a plan if every dependency of its stages is registered and the selected stages have
a plan among themselves (`plan_eq_ok_iff`). Neither depends on the order of registration, so stages
that are registered in another order have the same plan (`plan_congr`). Which calls a registry was
filled by does not matter beyond the stages they left in it: a call that is refused changes nothing.
-/
import SvgAssets.Proofs.Pipeline.PlanOrder

namespace SvgAssets.Pipeline

namespace Registry

/-! ## Filling a registry -/

/-- The registry behind one more call. A call that is refused changes nothing. -/
def tryRegister (r : Registry) (s : Stage) : Registry :=
  match r.register s with
  | .ok r => r
  | .error _ => r

/-- The registry that a sequence of calls leaves behind. -/
def ofCalls (calls : List Stage) : Registry := calls.foldl tryRegister empty

theorem register_eq_error_iff {r : Registry} {s : Stage} {e : DuplicateStage} :
    r.register s = .error e ↔ s.id ∈ r.ids ∧ e = ⟨s.id⟩ := by
  unfold register ids
  split
  · rename_i h
    simp [h, eq_comm]
  · rename_i h
    simp [h]

theorem tryRegister_of_mem {r : Registry} {s : Stage} (h : s.id ∈ r.ids) :
    r.tryRegister s = r := by
  unfold tryRegister
  rw [register_eq_error_iff.2 ⟨h, rfl⟩]

theorem stages_tryRegister {r : Registry} {s : Stage} (h : s.id ∉ r.ids) :
    (r.tryRegister s).stages = r.stages ++ [s] := by
  have h : s.id ∉ r.stages.map Stage.id := h
  unfold tryRegister register
  rw [dif_neg h]

theorem stages_foldl_tryRegister {calls : List Stage} {r : Registry}
    (h : (r.ids ++ calls.map Stage.id).Nodup) :
    (calls.foldl tryRegister r).stages = r.stages ++ calls := by
  induction calls generalizing r with
  | nil => simp
  | cons s calls ih =>
    have hs : s.id ∉ r.ids := by
      intro hmem
      exact (List.nodup_append.1 h).2.2 _ hmem s.id (by simp) rfl
    have hids : (r.tryRegister s).ids = r.ids ++ [s.id] := by
      unfold ids
      rw [stages_tryRegister hs, List.map_append]
      rfl
    have hcalls : ((r.tryRegister s).ids ++ calls.map Stage.id).Nodup := by
      rw [hids]
      simpa using h
    rw [List.foldl_cons, ih hcalls, stages_tryRegister hs]
    simp

/-- Stages with different identifiers are all registered, in their order. -/
theorem stages_ofCalls {calls : List Stage} (h : (calls.map Stage.id).Nodup) :
    (ofCalls calls).stages = calls :=
  stages_foldl_tryRegister (r := empty) h

/-! ## Plans -/

variable {r : Registry} {config : Config} {layer : Option Layer}

theorem mem_selected {s : Stage} :
    s ∈ r.selected config layer ↔
      s ∈ r.stages ∧ s.isEnabled config = true ∧ ∀ l, layer = some l → s.layer = l := by
  unfold selected
  rw [List.mem_filter, Bool.and_eq_true]
  cases layer with
  | none => simp
  | some l =>
    simp only [Option.isNone_some, Bool.false_or, beq_iff_eq, Option.some.injEq, forall_eq']
    rw [eq_comm (a := l)]

theorem nodup_ids_selected (r : Registry) (config : Config) (layer : Option Layer) :
    ((r.selected config layer).map Stage.id).Nodup :=
  r.nodup.sublist (List.filter_sublist.map Stage.id)

/-- All dependencies of registered stages are registered. -/
def IsClosed (r : Registry) : Prop := ∀ s ∈ r.stages, ∀ d ∈ s.dependencies, d ∈ r.ids

theorem missingOf_eq_nil_iff {s : Stage} :
    r.missingOf s = [] ↔ ∀ d ∈ s.dependencies, d ∈ r.ids := by
  simp [missingOf, List.filter_eq_nil_iff]

theorem plan_of_isClosed (h : r.IsClosed) :
    r.plan config layer = dependencyOrder (r.selected config layer) := by
  have hfind : r.stages.find? (fun s => !(r.missingOf s).isEmpty) = none := by
    rw [List.find?_eq_none]
    intro s hs
    simp [missingOf_eq_nil_iff.2 (h s hs)]
  unfold plan
  rw [hfind]

theorem plan_of_not_isClosed (h : ¬ r.IsClosed) :
    ∃ s ∈ r.stages, r.plan config layer = .error (.unknownDependencies s.id (r.missingOf s)) := by
  unfold plan
  cases hfind : r.stages.find? fun s => !(r.missingOf s).isEmpty with
  | some s => exact ⟨s, List.mem_of_find?_eq_some hfind, rfl⟩
  | none =>
    exfalso
    apply h
    intro s hs
    rw [List.find?_eq_none] at hfind
    apply missingOf_eq_nil_iff.1
    simpa using hfind s hs

theorem plan_eq_ok_iff {plan : List Stage} :
    r.plan config layer = .ok plan ↔ r.IsClosed ∧ IsPlan (r.selected config layer) plan := by
  by_cases h : r.IsClosed
  · rw [plan_of_isClosed h, dependencyOrder_eq_ok_iff (r.nodup_ids_selected config layer)]
    simp [h]
  · obtain ⟨s, -, hplan⟩ := @plan_of_not_isClosed r config layer h
    simp [hplan, h]

theorem nodup_ids_of_plan {plan : List Stage} (h : r.plan config layer = .ok plan) :
    (plan.map Stage.id).Nodup := by
  obtain ⟨-, hplan⟩ := plan_eq_ok_iff.1 h
  rw [(hplan.perm.map Stage.id).nodup_iff]
  exact r.nodup_ids_selected config layer

theorem mem_stages_of_plan {plan : List Stage} (h : r.plan config layer = .ok plan) {s : Stage}
    (hs : s ∈ plan) : s ∈ r.stages := by
  obtain ⟨-, hplan⟩ := plan_eq_ok_iff.1 h
  exact (mem_selected.1 (hplan.perm.mem_iff.1 hs)).1

/-- Registries of the same stages have the same plans. -/
theorem plan_congr {r' : Registry} (h : r.stages.Perm r'.stages) {plan : List Stage}
    (hplan : r.plan config layer = .ok plan) : r'.plan config layer = .ok plan := by
  obtain ⟨hclosed, hplan⟩ := plan_eq_ok_iff.1 hplan
  apply plan_eq_ok_iff.2
  refine ⟨?_, hplan.congr (h.filter _)⟩
  intro s hs d hd
  exact (h.map Stage.id).mem_iff.1 (hclosed s (h.mem_iff.2 hs) d hd)

/-- **The order of a plan.** The plan of a registry, whatever calls it was filled by, holds exactly
the stages that are enabled and in the layer, each of them once. It is a plan among these: every
stage stands behind its dependencies, and goes before all others that are free at its place. The
order of registration has no part in it. -/
theorem plan_ofCalls {calls : List Stage} {plan : List Stage}
    (h : (ofCalls calls).plan config layer = .ok plan) :
    (∀ s, s ∈ plan ↔
      s ∈ (ofCalls calls).stages ∧ s.isEnabled config = true ∧ ∀ l, layer = some l → s.layer = l) ∧
    (plan.map Stage.id).Nodup ∧
    IsPlan ((ofCalls calls).selected config layer) plan ∧
    ∀ reordered, reordered.Perm (ofCalls calls).stages →
      (ofCalls reordered).stages = reordered ∧
        (ofCalls reordered).plan config layer = .ok plan := by
  obtain ⟨-, hplan⟩ := plan_eq_ok_iff.1 h
  refine ⟨?_, nodup_ids_of_plan h, hplan, ?_⟩
  · intro s
    rw [hplan.perm.mem_iff, mem_selected]
  · intro reordered hperm
    have hstages : (ofCalls reordered).stages = reordered :=
      stages_ofCalls ((hperm.map Stage.id).nodup_iff.2 (ofCalls calls).nodup)
    refine ⟨hstages, plan_congr ?_ h⟩
    rw [hstages]
    exact hperm.symm

/-- A stage that is always enabled and does nothing. -/
def idleStage (id : String) (layer : Layer) (dependencies : List String) : Stage where
  id := id.toList
  layer := layer
  dependencies := dependencies.map String.toList
  description := ""
  isEnabled := fun _ => true
  work := .done

/-- A stage of an early layer that depends on one of a late layer; the third call is refused. -/
def invertedCalls : List Stage :=
  [idleStage "S1.01" .extraction ["S4.01"], idleStage "S4.01" .assembly [],
    idleStage "S1.01" .validation [], idleStage "S0.01" .validation []]

/-- The instance is the plan of these calls, in which the dependency goes before the layer, and of
the registered stages in the reversed order. -/
theorem plan_ofCalls_inverted :
    ∃ plan, (ofCalls invertedCalls).plan {} none = .ok plan ∧
      plan.map Stage.id = ["S0.01".toList, "S4.01".toList, "S1.01".toList] ∧
      IsPlan ((ofCalls invertedCalls).selected {} none) plan ∧
      (ofCalls (ofCalls invertedCalls).stages.reverse).plan {} none = .ok plan := by
  have hids : ((ofCalls invertedCalls).plan {} none).map (fun plan => plan.map Stage.id) =
      .ok ["S0.01".toList, "S4.01".toList, "S1.01".toList] := by
    decide +kernel
  cases hplan : (ofCalls invertedCalls).plan {} none with
  | error e =>
    rw [hplan] at hids
    cases hids
  | ok plan =>
    rw [hplan] at hids
    obtain ⟨-, -, hisPlan, hreordered⟩ := plan_ofCalls hplan
    exact ⟨plan, rfl, Except.ok.inj hids, hisPlan, (hreordered _ (List.reverse_perm _)).2⟩

end Registry

end SvgAssets.Pipeline
