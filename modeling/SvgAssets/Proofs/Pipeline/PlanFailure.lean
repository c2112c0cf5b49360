/-
# SvgAssets.Proofs.Pipeline.PlanFailure -- why there is no plan

Planning fails for an unknown dependency of any registered stage, and for a cycle among the selected
ones. What the agenda leaves over is stuck: every stage of it depends on another one of it. Along
such dependencies one can go on for ever, so among finitely many stages one comes by a stage twice;
hence stuck stages are those from which a way leads into a cycle (`mem_left_iff`). The other
direction needs no counting: a stage on such a way depends on another stage on such a way, so none
of them is ever listed. `plan_fails_iff` puts the two reasons together.
-/
import Mathlib.Data.List.Chain
import Mathlib.Data.List.Perm.Subperm
import SvgAssets.Proofs.Pipeline.RegistryPlan

namespace SvgAssets.Pipeline

/-! ## Cycles -/

/-- Stages of which each depends on the next one, and the last one on the first. -/
def IsCycle (cycle : List Stage) : Prop :=
  cycle ≠ [] ∧ (cycle ++ cycle.take 1).IsChain Stage.DependsOn

instance (cycle : List Stage) : Decidable (IsCycle cycle) :=
  inferInstanceAs (Decidable (¬ cycle = [] ∧ (cycle ++ cycle.take 1).IsChain Stage.DependsOn))

/-- From `s` a way along dependencies among `stages` leads into a cycle of them. -/
def LeadsToCycle (stages : List Stage) (s : Stage) : Prop :=
  ∃ way cycle, IsCycle cycle ∧ (way ++ cycle).IsChain Stage.DependsOn ∧
    (way ++ cycle).head? = some s ∧ ∀ t ∈ way ++ cycle, t ∈ stages

theorem isCycle_cons_iff {s : Stage} {rest : List Stage} :
    IsCycle (s :: rest) ↔ (s :: (rest ++ [s])).IsChain Stage.DependsOn := by
  simp [IsCycle]

/-- A cycle holds a stage and another one, or the same, that it depends on. -/
theorem IsCycle.exists_dependsOn {cycle : List Stage} (h : IsCycle cycle) :
    ∃ s ∈ cycle, ∃ t ∈ cycle, s.DependsOn t := by
  cases cycle with
  | nil => exact absurd rfl h.1
  | cons s rest =>
    have hchain := isCycle_cons_iff.1 h
    cases rest with
    | nil => exact ⟨s, by simp, s, by simp, hchain.rel⟩
    | cons t rest => exact ⟨s, by simp, t, by simp, hchain.rel⟩

theorem LeadsToCycle.mono {stages stages' : List Stage} {s : Stage}
    (h : LeadsToCycle stages s) (hsub : ∀ t ∈ stages, t ∈ stages') : LeadsToCycle stages' s := by
  obtain ⟨way, cycle, hcycle, hchain, hhead, hmem⟩ := h
  exact ⟨way, cycle, hcycle, hchain, hhead, fun t ht => hsub t (hmem t ht)⟩

section

variable {stages : List Stage}

/-- The stages of a cycle lead into it. -/
theorem exists_leadsToCycle_iff :
    (∃ s ∈ stages, LeadsToCycle stages s) ↔ ∃ cycle, IsCycle cycle ∧ ∀ s ∈ cycle, s ∈ stages := by
  constructor
  · rintro ⟨s, -, way, cycle, hcycle, -, -, hmem⟩
    exact ⟨cycle, hcycle, fun t ht => hmem t (List.mem_append_right way ht)⟩
  · rintro ⟨cycle, hcycle, hmem⟩
    cases cycle with
    | nil => exact absurd rfl hcycle.1
    | cons s rest =>
      have hchain : ((s :: rest) ++ [s]).IsChain Stage.DependsOn := isCycle_cons_iff.1 hcycle
      exact ⟨s, hmem s List.mem_cons_self, [], s :: rest, hcycle, hchain.left_of_append, rfl, hmem⟩

/-- A stage that leads into a cycle depends on another one that does. -/
theorem LeadsToCycle.exists_dependsOn {s : Stage} (h : LeadsToCycle stages s) :
    ∃ t ∈ stages, LeadsToCycle stages t ∧ s.DependsOn t := by
  obtain ⟨way, cycle, hcycle, hchain, hhead, hmem⟩ := h
  -- One step on, the way is shorter by one, or it goes once around the cycle.
  have hnext : ∃ way', (s :: (way' ++ cycle)).IsChain Stage.DependsOn ∧
      ∀ t ∈ way' ++ cycle, t ∈ stages := by
    cases way with
    | cons u way =>
      obtain rfl : u = s := by simpa using hhead
      exact ⟨way, hchain, fun t ht => hmem t (List.mem_cons_of_mem u ht)⟩
    | nil =>
      cases cycle with
      | nil => cases hhead
      | cons u rest =>
        obtain rfl : u = s := by simpa using hhead
        refine ⟨rest, ?_, ?_⟩
        · exact List.isChain_cons_split.2 ⟨isCycle_cons_iff.1 hcycle, hchain⟩
        · intro t ht
          rcases List.mem_append.1 ht with ht | ht
          · exact hmem t (List.mem_cons_of_mem u ht)
          · exact hmem t ht
  obtain ⟨way', hchain', hmem'⟩ := hnext
  have hne : way' ++ cycle ≠ [] := by
    simp [hcycle.1]
  obtain ⟨t, rest, ht⟩ := List.exists_cons_of_ne_nil hne
  rw [ht] at hchain'
  refine ⟨t, hmem' t (by simp [ht]), ⟨way', cycle, hcycle, ?_, by simp [ht], hmem'⟩, ?_⟩
  · rw [ht]
    exact hchain'.tail
  · exact hchain'.rel

/-! ## Stuck stages -/

/-- Among stuck stages one can go on for as long as one likes. -/
theorem IsStuck.exists_isChain (h : IsStuck stages) (n : Nat) {s : Stage} (hs : s ∈ stages) :
    ∃ way, (s :: way).IsChain Stage.DependsOn ∧ way.length = n ∧ ∀ t ∈ way, t ∈ stages := by
  induction n generalizing s with
  | zero => exact ⟨[], .singleton s, rfl, by simp⟩
  | succ n ih =>
    obtain ⟨t, ht, hdep⟩ := h s hs
    obtain ⟨way, hchain, hlength, hmem⟩ := ih ht
    refine ⟨t :: way, .cons_cons hdep hchain, by simp [hlength], ?_⟩
    intro u hu
    rcases List.mem_cons.1 hu with rfl | hu
    · exact ht
    · exact hmem u hu

theorem exists_eq_append_of_not_nodup {l : List Stage} (h : ¬ l.Nodup) :
    ∃ way s rest back, l = way ++ s :: (rest ++ s :: back) := by
  induction l with
  | nil => exact absurd List.nodup_nil h
  | cons t l ih =>
    by_cases ht : t ∈ l
    · obtain ⟨rest, back, rfl⟩ := List.append_of_mem ht
      exact ⟨[], t, rest, back, rfl⟩
    · have hl : ¬ l.Nodup := fun hl => h (List.nodup_cons.2 ⟨ht, hl⟩)
      obtain ⟨way, s, rest, back, rfl⟩ := ih hl
      exact ⟨t :: way, s, rest, back, rfl⟩

/-- A way that is longer than there are stages comes by one of them twice, and so into a cycle. -/
theorem IsStuck.leadsToCycle (h : IsStuck stages) {s : Stage} (hs : s ∈ stages) :
    LeadsToCycle stages s := by
  obtain ⟨way, hchain, hlength, hway⟩ := h.exists_isChain stages.length hs
  have hmem : ∀ t ∈ s :: way, t ∈ stages := by
    intro t ht
    rcases List.mem_cons.1 ht with rfl | ht
    · exact hs
    · exact hway t ht
  have hdup : ¬ (s :: way).Nodup := by
    intro hnodup
    have hle := (List.subperm_of_subset hnodup hmem).length_le
    simp only [List.length_cons] at hle
    omega
  obtain ⟨front, t, rest, back, hsplit⟩ := exists_eq_append_of_not_nodup hdup
  -- Between the two places of `t` the way closes, and up to the first of them it leads there.
  have hlong : (front ++ ((t :: rest) ++ t :: back)).IsChain Stage.DependsOn := by
    rw [hsplit] at hchain
    exact hchain
  refine ⟨front, t :: rest, ?_, ?_, ?_, ?_⟩
  · apply isCycle_cons_iff.2
    exact (List.isChain_split.1 hlong.right_of_append).1
  · rw [← List.append_assoc] at hlong
    exact hlong.left_of_append
  · have hhead := congrArg List.head? hsplit
    cases front with
    | nil => simpa using hhead.symm
    | cons u front => simpa using hhead.symm
  · intro u hu
    apply hmem
    rw [hsplit]
    simp only [List.mem_append, List.mem_cons] at hu ⊢
    tauto

/-- **Left over are the stages that lead into a cycle.** -/
theorem mem_left_iff {listed left : List Stage} (hperm : (listed ++ left).Perm stages)
    (hstuck : IsStuck left)
    (hnext : ∀ front s back, listed = front ++ s :: back → IsNext stages front s) {s : Stage} :
    s ∈ left ↔ s ∈ stages ∧ LeadsToCycle stages s := by
  have hleft : ∀ t ∈ left, t ∈ stages := fun t ht =>
    hperm.mem_iff.1 (List.mem_append_right listed ht)
  constructor
  · intro hs
    exact ⟨hleft s hs, (hstuck.leadsToCycle hs).mono hleft⟩
  · rintro ⟨hs, hleads⟩
    rcases List.mem_append.1 (hperm.mem_iff.2 hs) with hlisted | hs
    · exfalso
      refine not_mem_of_forall_dependsOn (fun front s back h => (hnext front s back h).free)
        (fun t ht => ?_) hlisted hleads
      exact LeadsToCycle.exists_dependsOn ht
    · exact hs

/-- The search for an order fails for cycles alone, and says which stages lead into them. -/
theorem dependencyOrder_of_isCycle (hids : (stages.map Stage.id).Nodup) {cycle : List Stage}
    (hcycle : IsCycle cycle) (hmem : ∀ s ∈ cycle, s ∈ stages) :
    ∃ ids, dependencyOrder stages = .error (.circular ids) ∧
      (ids.Pairwise fun x y => Text.le x y = true) ∧ ids.Nodup ∧
      ∀ id, id ∈ ids ↔ ∃ s ∈ stages, s.id = id ∧ LeadsToCycle stages s := by
  obtain ⟨s, hs, hleads⟩ := exists_leadsToCycle_iff.2 ⟨cycle, hcycle, hmem⟩
  rcases dependencyOrder_cases hids with ⟨plan, -, hplan⟩ |
    ⟨listed, left, ids, herror, hperm, -, hstuck, hnext, hleft, hsorted⟩
  · -- In a plan there would be a stage in front of `s` for which all this holds as well.
    exfalso
    refine not_mem_of_forall_dependsOn (fun front s back h => (hplan.next front s back h).free)
      (fun t ht => ?_) (hplan.perm.mem_iff.2 hs) hleads
    exact LeadsToCycle.exists_dependsOn ht
  · refine ⟨ids, herror, hsorted, ?_, ?_⟩
    · rw [hleft.nodup_iff]
      have hnodup := (hperm.map Stage.id).nodup_iff.2 hids
      rw [List.map_append] at hnodup
      exact hnodup.of_append_right
    · intro id
      rw [hleft.mem_iff, List.mem_map]
      simp only [mem_left_iff hperm hstuck hnext]
      constructor
      · rintro ⟨t, ⟨ht, htleads⟩, rfl⟩
        exact ⟨t, ht, rfl, htleads⟩
      · rintro ⟨t, ht, rfl, htleads⟩
        exact ⟨t, ⟨ht, htleads⟩, rfl⟩

theorem exists_dependencyOrder_eq_error_iff (hids : (stages.map Stage.id).Nodup) :
    (∃ e, dependencyOrder stages = .error e) ↔
      ∃ cycle, IsCycle cycle ∧ ∀ s ∈ cycle, s ∈ stages := by
  constructor
  · rintro ⟨e, he⟩
    rcases dependencyOrder_cases hids with ⟨plan, hplan, -⟩ |
      ⟨listed, left, ids, -, hperm, hne, hstuck, hnext, -⟩
    · rw [hplan] at he
      cases he
    · obtain ⟨s, hs⟩ := List.exists_mem_of_ne_nil left hne
      obtain ⟨hs, hleads⟩ := (mem_left_iff hperm hstuck hnext).1 hs
      exact exists_leadsToCycle_iff.1 ⟨s, hs, hleads⟩
  · rintro ⟨cycle, hcycle, hmem⟩
    obtain ⟨ids, hids, -⟩ := dependencyOrder_of_isCycle hids hcycle hmem
    exact ⟨_, hids⟩

end

/-! ## Registries -/

namespace Registry

theorem exists_plan_eq_error_iff {r : Registry} {config : Config} {layer : Option Layer} :
    (∃ e, r.plan config layer = .error e) ↔
      ¬ r.IsClosed ∨
        ∃ cycle, IsCycle cycle ∧ ∀ s ∈ cycle, s ∈ r.selected config layer := by
  by_cases h : r.IsClosed
  · rw [plan_of_isClosed h,
      exists_dependencyOrder_eq_error_iff (r.nodup_ids_selected config layer)]
    simp [h]
  · obtain ⟨s, -, hplan⟩ := @plan_of_not_isClosed r config layer h
    simp [hplan, h]

theorem exists_plan_eq_ok {r : Registry} {config : Config} {layer : Option Layer}
    (hclosed : r.IsClosed)
    (hcycle : ∀ cycle, IsCycle cycle → ¬ ∀ s ∈ cycle, s ∈ r.selected config layer) :
    ∃ plan, r.plan config layer = .ok plan := by
  cases hplan : r.plan config layer with
  | ok plan => exact ⟨plan, rfl⟩
  | error e =>
    exfalso
    rcases exists_plan_eq_error_iff.1 ⟨e, hplan⟩ with hopen | ⟨cycle, hc, hmem⟩
    · exact hopen hclosed
    · exact hcycle cycle hc hmem

/-- **When there is no plan.** Planning fails exactly if some registered stage, selected or not,
depends on one that was never registered, or if there is a cycle among the selected stages. In the
latter case alone the error names, in order, the selected stages from which a way along selected
stages leads into a cycle. Cycles that pass through a stage that is not selected are no error. A
stage whose identifier is taken is refused, and the registry stays as it was. -/
theorem plan_fails_iff (r : Registry) (config : Config) (layer : Option Layer) :
    ((∃ e, r.plan config layer = .error e) ↔
      (∃ s ∈ r.stages, ∃ d ∈ s.dependencies, d ∉ r.ids) ∨
        ∃ cycle, IsCycle cycle ∧ ∀ s ∈ cycle, s ∈ r.selected config layer) ∧
    ((∀ s ∈ r.stages, ∀ d ∈ s.dependencies, d ∈ r.ids) →
      ∀ cycle, IsCycle cycle → (∀ s ∈ cycle, s ∈ r.selected config layer) →
        ∃ (e : PlanError) (ids : List Text), r.plan config layer = .error e ∧
          e.message = "Circular dependency detected among: " ++
            ", ".intercalate (ids.map String.ofList) ∧
          (ids.Pairwise fun x y => Text.le x y = true) ∧ ids.Nodup ∧
          ∀ id, id ∈ ids ↔ ∃ s ∈ r.selected config layer, s.id = id ∧
            LeadsToCycle (r.selected config layer) s) ∧
    ((∀ s ∈ r.stages, ∀ d ∈ s.dependencies, d ∈ r.ids) →
      (∀ cycle, IsCycle cycle → (∀ s ∈ cycle, s ∈ r.stages) →
        ∃ s ∈ cycle, s.isEnabled config = false ∨ ∃ l, layer = some l ∧ s.layer ≠ l) →
      ∃ plan, r.plan config layer = .ok plan) ∧
    ∀ s, s.id ∈ r.ids →
      (∃ e, r.register s = .error e ∧
        e.message = "Duplicate stage ID: " ++ String.ofList s.id) ∧
      r.tryRegister s = r := by
  refine ⟨?_, ?_, ?_, ?_⟩
  · rw [exists_plan_eq_error_iff]
    simp [IsClosed]
  · intro hclosed cycle hcycle hmem
    obtain ⟨ids, herror, hsorted, hnodup, hids⟩ :=
      dependencyOrder_of_isCycle (r.nodup_ids_selected config layer) hcycle hmem
    refine ⟨.circular ids, ids, ?_, rfl, hsorted, hnodup, hids⟩
    rw [plan_of_isClosed hclosed, herror]
  · intro hclosed hcycles
    apply exists_plan_eq_ok hclosed
    intro cycle hcycle hmem
    have hstages : ∀ s ∈ cycle, s ∈ r.stages := fun s hs => (mem_selected.1 (hmem s hs)).1
    obtain ⟨s, hs, hs'⟩ := hcycles cycle hcycle hstages
    obtain ⟨-, henabled, hlayer⟩ := mem_selected.1 (hmem s hs)
    rcases hs' with hdisabled | ⟨l, hl, hne⟩
    · rw [henabled] at hdisabled
      cases hdisabled
    · exact hne (hlayer l hl)
  · intro s hs
    exact ⟨⟨_, register_eq_error_iff.2 ⟨hs, rfl⟩, rfl⟩, tryRegister_of_mem hs⟩

/-- Two stages in a cycle, one that leads there and one that does not; and a cycle across two
layers. -/
def cyclicCalls : List Stage :=
  [idleStage "S0.03" .validation ["S0.02"], idleStage "S0.02" .validation ["S0.01"],
    idleStage "S0.01" .validation ["S0.02"], idleStage "S0.04" .validation [],
    idleStage "S1.01" .extraction ["S2.01"], idleStage "S2.01" .templating ["S1.01"]]

/-- The instances are the first layer, whose cycle is found; the second, which has a plan although
there is a cycle through it; and another stage under an identifier that is taken. -/
theorem plan_fails_iff_cyclic :
    (∃ (e : PlanError) (ids : List Text),
      (ofCalls cyclicCalls).plan {} (some .validation) = .error e ∧
        e.message = "Circular dependency detected among: " ++
          ", ".intercalate (ids.map String.ofList) ∧
        "S0.02".toList ∈ ids ∧ "S0.03".toList ∈ ids ∧ "S0.04".toList ∉ ids) ∧
    (∃ plan, (ofCalls cyclicCalls).plan {} (some .extraction) = .ok plan) ∧
    (∃ e, (ofCalls cyclicCalls).plan {} none = .error e) ∧
    (ofCalls cyclicCalls).tryRegister (idleStage "S0.01" .assembly []) = ofCalls cyclicCalls := by
  have hclosed : ∀ s ∈ (ofCalls cyclicCalls).stages, ∀ d ∈ s.dependencies,
      d ∈ (ofCalls cyclicCalls).ids := by
    decide +kernel
  refine ⟨?_, ?_, ?_, ?_⟩
  · have hselected : (ofCalls cyclicCalls).selected {} (some .validation) =
        cyclicCalls.take 4 := by
      rfl
    have hcycle : IsCycle ((cyclicCalls.drop 1).take 2) := by
      decide +kernel
    obtain ⟨e, ids, herror, hmessage, -, -, hids⟩ :=
      (plan_fails_iff (ofCalls cyclicCalls) {} (some .validation)).2.1 hclosed _ hcycle (by
        rw [hselected]
        simp [cyclicCalls])
    rw [hselected] at hids
    refine ⟨e, ids, herror, hmessage, (hids _).2 ?_, (hids _).2 ?_, ?_⟩
    · refine ⟨cyclicCalls[1], by simp [cyclicCalls], rfl, [], (cyclicCalls.drop 1).take 2, hcycle,
        ?_, rfl, by simp [cyclicCalls]⟩
      decide +kernel
    · refine ⟨cyclicCalls[0], by simp [cyclicCalls], rfl, cyclicCalls.take 1,
        (cyclicCalls.drop 1).take 2, hcycle, ?_, rfl, by simp [cyclicCalls]⟩
      decide +kernel
    · -- A stage without dependencies leads nowhere.
      rw [hids]
      rintro ⟨s, hs, hid, hleads⟩
      obtain ⟨t, -, -, hdep⟩ := hleads.exists_dependsOn
      have hnone : ∀ s ∈ cyclicCalls.take 4, s.id = "S0.04".toList → s.dependencies = [] := by
        decide +kernel
      unfold Stage.DependsOn at hdep
      rw [hnone s hs hid] at hdep
      cases hdep
  · apply (plan_fails_iff (ofCalls cyclicCalls) {} (some .extraction)).2.2.1 hclosed
    intro cycle hcycle hmem
    have hleave : ∀ s ∈ (ofCalls cyclicCalls).stages, ∀ t ∈ (ofCalls cyclicCalls).stages,
        s.DependsOn t → s.layer ≠ .extraction ∨ t.layer ≠ .extraction := by
      decide +kernel
    obtain ⟨s, hs, t, ht, hdep⟩ := hcycle.exists_dependsOn
    rcases hleave s (hmem s hs) t (hmem t ht) hdep with hne | hne
    · exact ⟨s, hs, .inr ⟨_, rfl, hne⟩⟩
    · exact ⟨t, ht, .inr ⟨_, rfl, hne⟩⟩
  · apply (plan_fails_iff (ofCalls cyclicCalls) {} none).1.2
    right
    refine ⟨(cyclicCalls.drop 4).take 2, by decide +kernel, ?_⟩
    have hselected : (ofCalls cyclicCalls).selected {} none = cyclicCalls := by
      rfl
    rw [hselected]
    simp [cyclicCalls]
  · have hmem : (idleStage "S0.01" .assembly []).id ∈ (ofCalls cyclicCalls).ids := by
      decide +kernel
    exact ((plan_fails_iff (ofCalls cyclicCalls) {} none).2.2.2 _ hmem).2

end Registry

end SvgAssets.Pipeline
