/-
# SvgAssets.Proofs.Pipeline.PlanOrder -- what a plan is, and that the agenda finds it

A plan of some stages lists each of them once, and at every place it has the stage that goes before
all others that are free there (`IsPlan`). Stages with different identifiers have at most one plan,
whatever the order in which they are given (`IsPlan.unique`).

The agenda does not look for the foremost free stage. It keeps a queue and takes its first stage,
and it finds out which stages become free by striking the listed stage off what the others wait for.
`Agenda.Agrees` says what queue and waiting stages have to do with the stages listed so far; it
holds at the start and is kept by each turn. So the agenda lists a plan, as far as it comes, and
what it leaves over is stuck: every stage of it depends on another one (`Agrees.listed`). Stuck
stages stand in no order that respects dependencies, so the agenda finds the plan exactly if there
is one (`dependencyOrder_eq_ok_iff`).
-/
import Mathlib.Data.List.Nodup
import Mathlib.Data.List.Induction
import SvgAssets.Pipeline.Plan

namespace SvgAssets.Pipeline

/-! ## The order among free stages -/

namespace Stage

theorem goesBefore_iff {s t : Stage} :
    s.goesBefore t = true ↔
      s.layer.rank < t.layer.rank ∨
        s.layer.rank = t.layer.rank ∧ Text.le s.id t.id = true := by
  simp [goesBefore]

theorem goesBefore_refl (s : Stage) : s.goesBefore s = true :=
  goesBefore_iff.2 (.inr ⟨rfl, Text.le_refl s.id⟩)

theorem goesBefore_of_not {s t : Stage} (h : ¬ s.goesBefore t = true) :
    t.goesBefore s = true := by
  rw [goesBefore_iff, not_or, not_and] at h
  rw [goesBefore_iff]
  obtain ⟨hlayer, hid⟩ := h
  rcases Nat.lt_or_eq_of_le (Nat.le_of_not_lt hlayer) with hlt | heq
  · exact .inl hlt
  · right
    refine ⟨heq, ?_⟩
    have htotal := Text.le_total s.id t.id
    simpa [hid heq.symm] using htotal

theorem goesBefore_trans {s t u : Stage} (hst : s.goesBefore t = true)
    (htu : t.goesBefore u = true) : s.goesBefore u = true := by
  rw [goesBefore_iff] at hst htu ⊢
  rcases hst with hst | ⟨est, hst⟩
  · left
    rcases htu with htu | ⟨etu, -⟩ <;> omega
  · rcases htu with htu | ⟨etu, htu⟩
    · left
      omega
    · exact .inr ⟨est.trans etu, Text.le_trans hst htu⟩

theorem id_eq_of_goesBefore {s t : Stage} (hst : s.goesBefore t = true)
    (hts : t.goesBefore s = true) : s.id = t.id := by
  rw [goesBefore_iff] at hst hts
  have hlayer : s.layer.rank = t.layer.rank := by
    omega
  have hst : Text.le s.id t.id = true := by
    simpa [hlayer] using hst
  have hts : Text.le t.id s.id = true := by
    simpa [hlayer] using hts
  exact Text.le_antisymm hst hts

end Stage

/-! ## The queue -/

/-- A queue in which every stage goes before all that stand behind it. -/
def IsInOrder (queue : List Stage) : Prop := queue.Pairwise fun s t => s.goesBefore t = true

theorem IsInOrder.enqueue {queue : List Stage} (h : IsInOrder queue) (s : Stage) :
    IsInOrder (enqueue queue s) := by
  induction queue with
  | nil => exact List.pairwise_singleton _ s
  | cons t queue ih =>
    have ⟨htail, hqueue⟩ := List.pairwise_cons.1 h
    unfold Pipeline.enqueue
    split
    · rename_i hst
      apply List.pairwise_cons.2
      refine ⟨?_, h⟩
      intro u hu
      rcases List.mem_cons.1 hu with rfl | hu
      · exact hst
      · exact Stage.goesBefore_trans hst (htail u hu)
    · rename_i hst
      apply List.pairwise_cons.2
      refine ⟨?_, ih hqueue⟩
      intro u hu
      rcases List.mem_cons.1 ((enqueue_perm queue s).mem_iff.1 hu) with rfl | hu
      · exact Stage.goesBefore_of_not hst
      · exact htail u hu

theorem IsInOrder.foldl_enqueue {queue : List Stage} (h : IsInOrder queue)
    (stages : List Stage) : IsInOrder (stages.foldl Pipeline.enqueue queue) := by
  induction stages generalizing queue with
  | nil => exact h
  | cons s stages ih => exact ih (h.enqueue s)

/-! ## Plans -/

namespace Stage

/-- `s` names `t` among its dependencies. -/
def DependsOn (s t : Stage) : Prop := t.id ∈ s.dependencies

instance (s t : Stage) : Decidable (s.DependsOn t) := inferInstanceAs (Decidable (_ ∈ _))

/-- What `s` depends on among `stages` stands in `front`. -/
def IsFreeBehind (stages front : List Stage) (s : Stage) : Prop :=
  ∀ t ∈ stages, s.DependsOn t → t ∈ front

end Stage

/-- Behind `front` the stage `s` comes next: it is free, and it goes before all other stages that
are free and not listed yet. -/
structure IsNext (stages front : List Stage) (s : Stage) : Prop where
  free : s.IsFreeBehind stages front
  least : ∀ t ∈ stages, t ∉ front → t.IsFreeBehind stages front → s.goesBefore t = true

/-- A plan lists every stage once, each time the one that comes next. -/
structure IsPlan (stages plan : List Stage) : Prop where
  perm : plan.Perm stages
  next : ∀ front s back, plan = front ++ s :: back → IsNext stages front s

theorem IsNext.congr {stages stages' front : List Stage} {s : Stage}
    (h : IsNext stages front s) (hmem : ∀ t, t ∈ stages' ↔ t ∈ stages) :
    IsNext stages' front s := by
  have hfree : ∀ t : Stage, t.IsFreeBehind stages' front ↔ t.IsFreeBehind stages front := by
    intro t
    unfold Stage.IsFreeBehind
    simp only [hmem]
  refine ⟨(hfree s).2 h.free, ?_⟩
  intro t ht hfront htfree
  exact h.least t ((hmem t).1 ht) hfront ((hfree t).1 htfree)

/-- A plan does not depend on the order in which the stages are given. -/
theorem IsPlan.congr {stages stages' plan : List Stage} (h : IsPlan stages plan)
    (hperm : stages.Perm stages') : IsPlan stages' plan := by
  refine ⟨h.perm.trans hperm, ?_⟩
  intro front s back hplan
  exact (h.next front s back hplan).congr fun t => hperm.symm.mem_iff

section

variable {stages : List Stage}

theorem eq_of_id_eq (hids : (stages.map Stage.id).Nodup) {s t : Stage} (hs : s ∈ stages)
    (ht : t ∈ stages) (h : s.id = t.id) : s = t :=
  List.inj_on_of_nodup_map hids hs ht h

/-- Only one stage comes next. -/
theorem IsNext.unique (hids : (stages.map Stage.id).Nodup) {front : List Stage} {s t : Stage}
    (hs : IsNext stages front s) (ht : IsNext stages front t) (hsmem : s ∈ stages)
    (htmem : t ∈ stages) (hsfront : s ∉ front) (htfront : t ∉ front) : s = t := by
  have hst : s.goesBefore t = true := hs.least t htmem htfront ht.free
  have hts : t.goesBefore s = true := ht.least s hsmem hsfront hs.free
  exact eq_of_id_eq hids hsmem htmem (Stage.id_eq_of_goesBefore hst hts)

theorem IsPlan.nodup {plan : List Stage} (h : IsPlan stages plan)
    (hids : (stages.map Stage.id).Nodup) : plan.Nodup :=
  h.perm.nodup_iff.2 hids.of_map

/-- Two plans that agree on a front agree behind it. -/
theorem IsPlan.append_unique (hids : (stages.map Stage.id).Nodup) {front p q : List Stage}
    (hp : IsPlan stages (front ++ p)) (hq : IsPlan stages (front ++ q)) : p = q := by
  have hlength : p.length = q.length := by
    have hperm := (hp.perm.trans hq.perm.symm).length_eq
    simpa using hperm
  induction p generalizing front q with
  | nil =>
    cases q with
    | nil => rfl
    | cons t q => cases hlength
  | cons s p ih =>
    cases q with
    | nil => cases hlength
    | cons t q =>
      have hsfront : s ∉ front := fun hs =>
        List.disjoint_of_nodup_append (hp.nodup hids) hs List.mem_cons_self
      have htfront : t ∉ front := fun ht =>
        List.disjoint_of_nodup_append (hq.nodup hids) ht List.mem_cons_self
      have hsmem : s ∈ stages := hp.perm.mem_iff.1 (by simp)
      have htmem : t ∈ stages := hq.perm.mem_iff.1 (by simp)
      obtain rfl : s = t :=
        (hp.next front s p rfl).unique hids (hq.next front t q rfl) hsmem htmem hsfront htfront
      have hp' : IsPlan stages ((front ++ [s]) ++ p) := by
        simpa using hp
      have hq' : IsPlan stages ((front ++ [s]) ++ q) := by
        simpa using hq
      rw [ih hp' hq' (by simpa using hlength)]

/-- **There is only one plan.** -/
theorem IsPlan.unique (hids : (stages.map Stage.id).Nodup) {p q : List Stage}
    (hp : IsPlan stages p) (hq : IsPlan stages q) : p = q :=
  @IsPlan.append_unique stages hids [] p q hp hq

end

/-! ## The agenda -/

theorem Waiting.isFree_iff {w : Waiting} : w.isFree = true ↔ w.pending = [] :=
  List.isEmpty_iff

namespace Agenda

/-- How the agenda goes with the stages that are listed already. -/
structure Agrees (stages front : List Stage) (a : Agenda) : Prop where
  /-- No stage is lost and none is there twice. -/
  perm : (front ++ (a.ready ++ a.waiting.map Waiting.stage)).Perm stages
  inOrder : IsInOrder a.ready
  free : ∀ s ∈ a.ready, s.IsFreeBehind stages front
  /-- A stage waits for those of its dependencies that are not listed. -/
  pending : ∀ w ∈ a.waiting, ∀ d,
    d ∈ w.pending ↔ d ∈ w.stage.dependencies ∧ ∃ t ∈ stages, t.id = d ∧ t ∉ front

/-- Everything that waits does so for something. -/
def IsSettled (a : Agenda) : Prop := ∀ w ∈ a.waiting, w.pending ≠ []

variable {stages front : List Stage} {a : Agenda}

theorem isSettled_promote (a : Agenda) : a.promote.IsSettled := by
  intro w hw hpending
  have hfree := (List.mem_filter.1 hw).2
  rw [Waiting.isFree_iff.2 hpending] at hfree
  cases hfree

theorem Agrees.isFree_iff (h : Agrees stages front a) {w : Waiting} (hw : w ∈ a.waiting) :
    w.isFree = true ↔ w.stage.IsFreeBehind stages front := by
  rw [Waiting.isFree_iff, List.eq_nil_iff_forall_not_mem]
  constructor
  · intro hnone t ht hdep
    by_contra hfront
    exact hnone t.id ((h.pending w hw t.id).2 ⟨hdep, t, ht, rfl, hfront⟩)
  · intro hfree d hd
    obtain ⟨hdep, t, ht, rfl, hfront⟩ := (h.pending w hw d).1 hd
    exact hfront (hfree t ht hdep)

theorem mem_ready_promote {s : Stage} :
    s ∈ a.promote.ready ↔
      (∃ w ∈ a.waiting, w.isFree = true ∧ w.stage = s) ∨ s ∈ a.ready := by
  show s ∈ List.foldl enqueue a.ready _ ↔ _
  rw [(foldl_enqueue_perm _ _).mem_iff]
  simp [and_assoc]

theorem Agrees.promote (h : Agrees stages front a) : Agrees stages front a.promote := by
  refine ⟨?_, h.inOrder.foldl_enqueue _, ?_, ?_⟩
  · refine .trans (.append_left front ?_) h.perm
    -- The free stages go from one part of the agenda to the other.
    have hsplit : ((a.waiting.filter fun w => w.isFree).map Waiting.stage ++
        (a.waiting.filter fun w => !w.isFree).map Waiting.stage).Perm
          (a.waiting.map Waiting.stage) := by
      rw [← List.map_append]
      exact (List.filter_append_perm _ _).map _
    calc a.promote.ready ++ a.promote.waiting.map Waiting.stage
      _ |>.Perm (((a.waiting.filter fun w => w.isFree).map Waiting.stage ++ a.ready) ++
          (a.waiting.filter fun w => !w.isFree).map Waiting.stage) :=
        (foldl_enqueue_perm _ _).append_right _
      _ |>.Perm (a.ready ++ ((a.waiting.filter fun w => w.isFree).map Waiting.stage ++
          (a.waiting.filter fun w => !w.isFree).map Waiting.stage)) := by
        rw [← List.append_assoc]
        exact List.perm_append_comm.append_right _
      _ |>.Perm (a.ready ++ a.waiting.map Waiting.stage) := hsplit.append_left _
  · intro s hs
    rcases mem_ready_promote.1 hs with ⟨w, hw, hfree, rfl⟩ | hs
    · exact (h.isFree_iff hw).1 hfree
    · exact h.free s hs
  · intro w hw
    exact h.pending w (List.mem_filter.1 hw).1

/-- When the first stage of the queue is listed, nothing waits for it any longer. -/
theorem Agrees.listFirst (hids : (stages.map Stage.id).Nodup) {s : Stage} {ready : List Stage}
    {waiting : List Waiting} (h : Agrees stages front ⟨s :: ready, waiting⟩) :
    Agrees stages (front ++ [s]) (meet s.id ⟨ready, waiting⟩) := by
  have hs : s ∈ stages := h.perm.mem_iff.1 (by simp)
  refine ⟨?_, (List.pairwise_cons.1 h.inOrder).2, ?_, ?_⟩
  · have hstages : (waiting.map (Waiting.meet s.id)).map Waiting.stage =
        waiting.map Waiting.stage := by
      rw [List.map_map]
      rfl
    simpa [meet, hstages] using h.perm
  · intro t ht u hu hdep
    exact List.mem_append_left _ (h.free t (List.mem_cons_of_mem s ht) u hu hdep)
  · intro w' hw' d
    obtain ⟨w, hw, rfl⟩ := List.mem_map.1 hw'
    show d ∈ w.pending.filter (fun d => d != s.id) ↔ _
    rw [List.mem_filter, h.pending w hw d, bne_iff_ne]
    constructor
    · rintro ⟨⟨hdep, t, ht, rfl, hfront⟩, hne⟩
      refine ⟨hdep, t, ht, rfl, ?_⟩
      rw [List.mem_append, List.mem_singleton]
      rintro (hfront' | rfl)
      · exact hfront hfront'
      · exact hne rfl
    · rintro ⟨hdep, t, ht, rfl, hfront⟩
      rw [List.mem_append, List.mem_singleton, not_or] at hfront
      refine ⟨⟨hdep, t, ht, rfl, hfront.1⟩, ?_⟩
      -- Another stage with this identifier would be `s` itself.
      intro hid
      exact hfront.2 (eq_of_id_eq hids ht hs hid)

/-- The first stage of the queue is the one that comes next. -/
theorem Agrees.isNext {s : Stage} {ready : List Stage} {waiting : List Waiting}
    (h : Agrees stages front ⟨s :: ready, waiting⟩) (hsettled : IsSettled ⟨s :: ready, waiting⟩) :
    IsNext stages front s := by
  refine ⟨h.free s List.mem_cons_self, ?_⟩
  intro t ht hfront hfree
  have hcoming : t ∈ s :: ready ∨ ∃ w ∈ waiting, w.stage = t := by
    have hmem := h.perm.mem_iff.2 ht
    rw [List.mem_append, List.mem_append, List.mem_map] at hmem
    exact hmem.resolve_left hfront
  rcases hcoming with ht | ⟨w, hw, rfl⟩
  · rcases List.mem_cons.1 ht with rfl | ht
    · exact Stage.goesBefore_refl t
    · exact (List.pairwise_cons.1 h.inOrder).1 t ht
  · -- A stage that waits is not free.
    have hpending := Waiting.isFree_iff.1 ((h.isFree_iff hw).2 hfree)
    exact absurd hpending (hsettled w hw)

theorem agrees_start (stages : List Stage) :
    Agrees stages [] ⟨[], stages.map (Waiting.ofStage (stages.map Stage.id))⟩ := by
  refine ⟨?_, List.Pairwise.nil, by simp, ?_⟩
  · have hstages : (stages.map (Waiting.ofStage (stages.map Stage.id))).map Waiting.stage =
        stages := by
      rw [List.map_map]
      exact List.map_id stages
    simp [hstages]
  · intro w hw d
    obtain ⟨s, hs, rfl⟩ := List.mem_map.1 hw
    simp [Waiting.ofStage]

end Agenda

/-- Stages of which every one depends on another of them, or on itself. -/
def IsStuck (stages : List Stage) : Prop := ∀ s ∈ stages, ∃ t ∈ stages, s.DependsOn t

section

variable {stages : List Stage}

/-- **What the agenda lists.** It takes what comes next for as long as there is such a stage, and
what it leaves over is stuck. -/
theorem Agenda.Agrees.listed (hids : (stages.map Stage.id).Nodup) {front : List Stage}
    {a : Agenda} (h : a.Agrees stages front) (hsettled : a.IsSettled) :
    (∀ l s r, a.listed = l ++ s :: r → IsNext stages (front ++ l) s) ∧
      ∃ left, (front ++ (a.listed ++ left)).Perm stages ∧ IsStuck left := by
  induction a using Agenda.listed.induct generalizing front with
  | case1 waiting =>
    unfold Agenda.listed
    refine ⟨by simp, waiting.map Waiting.stage, h.perm, ?_⟩
    intro s hs
    obtain ⟨w, hw, rfl⟩ := List.mem_map.1 hs
    obtain ⟨d, hd⟩ := List.exists_mem_of_ne_nil _ (hsettled w hw)
    obtain ⟨hdep, t, ht, rfl, hfront⟩ := (h.pending w hw d).1 hd
    refine ⟨t, ?_, hdep⟩
    -- What is not listed when the queue is empty is among those that wait.
    have hmem := h.perm.mem_iff.2 ht
    simp only [List.nil_append, List.mem_append] at hmem
    exact hmem.resolve_left hfront
  | case2 s ready waiting ih =>
    obtain ⟨hnext, left, hperm, hstuck⟩ := ih (h.listFirst hids).promote (isSettled_promote _)
    unfold Agenda.listed
    refine ⟨?_, left, by simpa using hperm, hstuck⟩
    intro l t r hlisted
    cases l with
    | nil =>
      obtain ⟨rfl, -⟩ := List.cons.inj hlisted
      simpa using h.isNext hsettled
    | cons u l =>
      obtain ⟨rfl, htail⟩ := List.cons.inj hlisted
      simpa using hnext l t r htail

/-- Where dependencies come first, no stage is listed of any that depend on each other. -/
theorem not_mem_of_forall_dependsOn {order : List Stage}
    (hfree : ∀ front s back, order = front ++ s :: back → s.IsFreeBehind stages front)
    {P : Stage → Prop} (hP : ∀ s, P s → ∃ t ∈ stages, P t ∧ s.DependsOn t) {s : Stage}
    (hs : s ∈ order) : ¬ P s := by
  obtain ⟨front, back, horder⟩ := List.append_of_mem hs
  -- Up to any place: a stage among those in front would be one with `P` itself.
  have hfront : ∀ front back, order = front ++ back → ∀ t ∈ front, ¬ P t := by
    intro front
    induction front using List.reverseRecOn with
    | nil => simp
    | append_singleton front u ih =>
      intro back horder t ht hPt
      rw [List.append_assoc] at horder
      rcases List.mem_append.1 ht with ht | ht
      · exact ih _ horder t ht hPt
      · obtain rfl := List.mem_singleton.1 ht
        obtain ⟨v, hv, hPv, hdep⟩ := hP t hPt
        exact ih _ horder v (hfree front t back horder v hv hdep) hPv
  refine hfront (front ++ [s]) back ?_ s (by simp)
  simpa using horder

/-- How the search for an order ends: with a plan, or with stuck stages left over. -/
theorem dependencyOrder_cases (hids : (stages.map Stage.id).Nodup) :
    (∃ plan, dependencyOrder stages = .ok plan ∧ IsPlan stages plan) ∨
      ∃ listed left ids, dependencyOrder stages = .error (.circular ids) ∧
        (listed ++ left).Perm stages ∧ left ≠ [] ∧ IsStuck left ∧
        (∀ front s back, listed = front ++ s :: back → IsNext stages front s) ∧
        ids.Perm (left.map Stage.id) ∧ ids.Pairwise fun x y => Text.le x y = true := by
  have hagrees := (Agenda.agrees_start stages).promote
  obtain ⟨hnext, left, hperm, hstuck⟩ := hagrees.listed hids (Agenda.isSettled_promote _)
  simp only [List.nil_append] at hnext hperm
  change ∀ l s r, (Agenda.ofStages stages).listed = _ → _ at hnext
  change ((Agenda.ofStages stages).listed ++ left).Perm stages at hperm
  have hlength := hperm.length_eq
  rw [List.length_append] at hlength
  unfold dependencyOrder
  generalize (Agenda.ofStages stages).listed = listed at *
  simp only
  split
  · rename_i heq
    obtain rfl : left = [] := List.length_eq_zero_iff.1 (by omega)
    rw [List.append_nil] at hperm
    exact .inl ⟨listed, rfl, hperm, hnext⟩
  · rename_i hne
    right
    refine ⟨listed, left, _, rfl, hperm, ?_, hstuck, hnext, ?_, ?_⟩
    · rintro rfl
      exact hne (by simpa using hlength)
    · -- The identifiers that are not listed are those of the stages left over.
      refine (Text.sort_perm _).trans ?_
      have hdisjoint : ∀ s ∈ left, s.id ∉ listed.map Stage.id := by
        have hnodup := (hperm.map Stage.id).nodup_iff.2 hids
        rw [List.map_append] at hnodup
        intro s hs hlisted
        exact List.disjoint_of_nodup_append hnodup hlisted (List.mem_map_of_mem hs)
      refine ((hperm.map Stage.id).symm.filter _).trans ?_
      have hlisted : (listed.map Stage.id).filter
          (fun id => !(listed.map Stage.id).contains id) = [] := by
        simp [List.filter_eq_nil_iff]
      have hleft : (left.map Stage.id).filter
          (fun id => !(listed.map Stage.id).contains id) = left.map Stage.id := by
        rw [List.filter_eq_self]
        intro id hid
        obtain ⟨s, hs, rfl⟩ := List.mem_map.1 hid
        simpa using hdisjoint s hs
      rw [List.map_append, List.filter_append, hlisted, hleft]
      exact .refl _
    · exact Text.pairwise_sort _

/-- Stages that stand in some order with dependencies first have a plan, and it is found. -/
theorem exists_dependencyOrder_eq_ok (hids : (stages.map Stage.id).Nodup) {order : List Stage}
    (hperm : order.Perm stages)
    (hfree : ∀ front s back, order = front ++ s :: back → s.IsFreeBehind stages front) :
    ∃ plan, dependencyOrder stages = .ok plan ∧ IsPlan stages plan := by
  rcases dependencyOrder_cases hids with hplan | ⟨listed, left, -, -, hleft, hne, hstuck, -⟩
  · exact hplan
  · exfalso
    have hmem : ∀ s ∈ left, s ∈ stages := fun s hs =>
      hleft.mem_iff.1 (List.mem_append_right listed hs)
    obtain ⟨s, hs⟩ := List.exists_mem_of_ne_nil left hne
    refine not_mem_of_forall_dependsOn hfree (P := (· ∈ left)) ?_
      (hperm.mem_iff.2 (hmem s hs)) hs
    intro t ht
    obtain ⟨u, hu, hdep⟩ := hstuck t ht
    exact ⟨u, hmem u hu, hu, hdep⟩

/-- **The agenda finds the plan of stages that have one, and nothing else.** -/
theorem dependencyOrder_eq_ok_iff (hids : (stages.map Stage.id).Nodup) {plan : List Stage} :
    dependencyOrder stages = .ok plan ↔ IsPlan stages plan := by
  constructor
  · intro h
    rcases dependencyOrder_cases hids with ⟨p, hp, hplan⟩ | ⟨-, -, ids, herror, -⟩
    · rw [hp] at h
      cases h
      exact hplan
    · rw [herror] at h
      cases h
  · intro hplan
    obtain ⟨p, hp, hp'⟩ := exists_dependencyOrder_eq_ok hids hplan.perm
      fun front s back h => (hplan.next front s back h).free
    rw [hp, hplan.unique hids hp']

end

end SvgAssets.Pipeline
