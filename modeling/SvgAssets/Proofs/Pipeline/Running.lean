/-
# SvgAssets.Proofs.Pipeline.Running -- what a run does to its subject and to the calls

A stage comes to its end or fails; `runStage_of_none` and `runStage_of_some` say what becomes of the
progress in either case. For several stages `Passes` relates the subject in front of them to the one
behind them, if all come to their end. A run passes all of its stages, or it passes some, and the
next one fails and nothing else is called (`runStages_cases`). Where nothing was noted before and
the stages leave the books alone, this settles all that the run leaves behind
(`Progress.Ends`).
-/
import SvgAssets.Pipeline.Run

namespace SvgAssets.Pipeline

/-- The stages come to their end one after the other and lead from one subject to another. -/
inductive Passes : List Stage → Subject → Subject → Prop
  | nil (x : Subject) : Passes [] x x
  | cons {s : Stage} {stages : List Stage} {x y : Subject} :
      (s.work x).failure = none → Passes stages ((s.work x).state.complete s.id) y →
      Passes (s :: stages) x y

namespace Passes

theorem of_append {front back : List Stage} {x z : Subject} (h : Passes (front ++ back) x z) :
    ∃ y, Passes front x y ∧ Passes back y z := by
  induction front generalizing x with
  | nil => exact ⟨x, .nil x, h⟩
  | cons s front ih =>
    cases h with
    | cons hnone hrest =>
      obtain ⟨y, hfront, hback⟩ := ih hrest
      exact ⟨y, .cons hnone hfront, hback⟩

/-- What the work of each stage keeps, all stages together keep. -/
theorem preserves {P : Subject → Prop} {stages : List Stage}
    (hstep : ∀ s ∈ stages, ∀ x, P x → P ((s.work x).state.complete s.id)) {x y : Subject}
    (h : Passes stages x y) (hx : P x) : P y := by
  induction h with
  | nil x => exact hx
  | @cons s stages x y hnone hrest ih =>
    rw [List.forall_mem_cons] at hstep
    exact ih hstep.2 (hstep.1 x hx)

end Passes

/-- The stage leaves the configuration as it is. -/
def Stage.KeepsConfig (s : Stage) : Prop := ∀ x, (s.work x).state.config = x.config

/-- The stage leaves the books as they are. -/
def Stage.KeepsBooks (s : Stage) : Prop := ∀ x, (s.work x).state.toBooks = x.toBooks

theorem Subject.books_complete {x : Subject} {id : Text} (h : id ∉ x.completed) :
    (x.complete id).toBooks = ⟨x.completed ++ [id], x.failures, x.isSkipped⟩ := by
  unfold complete
  rw [if_neg h]

/-- Stages that leave the books alone are noted in them as completed, and nothing else is. -/
theorem Passes.books {stages : List Stage} (hkeeps : ∀ s ∈ stages, s.KeepsBooks) {x y : Subject}
    (h : Passes stages x y) (hnew : (x.completed ++ stages.map Stage.id).Nodup) :
    y.toBooks = ⟨x.completed ++ stages.map Stage.id, x.failures, x.isSkipped⟩ := by
  induction h with
  | nil x => rw [List.map_nil, List.append_nil]
  | @cons s stages x y hnone hrest ih =>
    rw [List.forall_mem_cons] at hkeeps
    have hbooks := hkeeps.1 x
    have hmem : s.id ∉ (s.work x).state.completed := by
      rw [hbooks]
      intro hs
      exact (List.nodup_append.1 hnew).2.2 _ hs s.id (by simp) rfl
    have hbehind : ((s.work x).state.complete s.id).toBooks =
        ⟨x.completed ++ [s.id], x.failures, x.isSkipped⟩ := by
      rw [Subject.books_complete hmem, hbooks]
    rw [ih hkeeps.2 (by rw [hbehind]; simpa using hnew), hbehind]
    simp

namespace Progress

variable {p : Progress} {s : Stage}

/-! ## One stage -/

theorem runStage_of_none (h : (s.work p.toSubject).failure = none) :
    (p.runStage s).state = ⟨(s.work p.toSubject).state.complete s.id, p.called ++ [s.id]⟩ ∧
      (p.runStage s).failure = none := by
  unfold runStage
  simp only [h, and_self]

theorem runStage_of_some {e : StageFailure} (h : (s.work p.toSubject).failure = some e) :
    (p.runStage s).state = ⟨(s.work p.toSubject).state.fail s.id e, p.called ++ [s.id]⟩ ∧
      (p.runStage s).failure = some e := by
  unfold runStage
  simp only [h, and_self]

/-- However a stage ends, what is noted of it concerns neither the configuration nor the asset. -/
theorem runStage_of_work (p : Progress) (s : Stage) :
    (p.runStage s).state.config = (s.work p.toSubject).state.config ∧
      (p.runStage s).state.asset = (s.work p.toSubject).state.asset := by
  cases h : (s.work p.toSubject).failure with
  | none =>
    rw [(runStage_of_none h).1]
    exact ⟨rfl, rfl⟩
  | some e =>
    rw [(runStage_of_some h).1]
    exact ⟨rfl, rfl⟩

/-! ## Several stages -/

theorem runStages_nil (p : Progress) : p.runStages [] = .done p := rfl

theorem runStages_cons (p : Progress) (s : Stage) (stages : List Stage) :
    p.runStages (s :: stages) = (p.runStage s).andThen fun p => p.runStages stages := rfl

theorem runStages_append (p : Progress) (front back : List Stage) :
    p.runStages (front ++ back) = (p.runStages front).andThen fun p => p.runStages back :=
  Attempt.forEach_append runStage p front back

theorem config_runStages {stages : List Stage} (h : ∀ s ∈ stages, s.KeepsConfig)
    (p : Progress) : (p.runStages stages).state.config = p.config := by
  refine Attempt.forEach_preserves (P := fun q : Progress => q.config = p.config) ?_ rfl
  intro s hs q hq
  show (q.runStage s).state.config = p.config
  rw [(runStage_of_work q s).1, h s hs]
  exact hq

/-- **A run passes all of its stages, or some of them up to one that fails.** -/
theorem runStages_cases (p : Progress) (stages : List Stage) :
    (∃ x, Passes stages p.toSubject x ∧ (p.runStages stages).failure = none ∧
      (p.runStages stages).state = ⟨x, p.called ++ stages.map Stage.id⟩) ∨
    ∃ front s back x e, stages = front ++ s :: back ∧ Passes front p.toSubject x ∧
      (s.work x).failure = some e ∧ (p.runStages stages).failure = some e ∧
      (p.runStages stages).state =
        ⟨(s.work x).state.fail s.id e, p.called ++ front.map Stage.id ++ [s.id]⟩ := by
  induction stages generalizing p with
  | nil =>
    left
    refine ⟨p.toSubject, .nil _, rfl, ?_⟩
    simp [runStages_nil, Attempt.done]
  | cons s stages ih =>
    rw [runStages_cons]
    cases h : (s.work p.toSubject).failure with
    | some e =>
      obtain ⟨hstate, hfailure⟩ := runStage_of_some h
      right
      refine ⟨[], s, stages, p.toSubject, e, rfl, .nil _, h, ?_, ?_⟩
      · exact Attempt.failure_andThen_of_some hfailure _
      · rw [Attempt.andThen_of_some hfailure, hstate]
        simp
    | none =>
      -- What is left to do starts from the progress behind `s`.
      obtain ⟨hstate, hfailure⟩ := runStage_of_none h
      rw [Attempt.state_andThen_of_none hfailure, Attempt.failure_andThen_of_none hfailure, hstate]
      rcases ih ⟨(s.work p.toSubject).state.complete s.id, p.called ++ [s.id]⟩ with
        ⟨x, hpasses, hnone, hrun⟩ | ⟨front, t, back, x, e, rfl, hpasses, hfail, hsome, hrun⟩
      · left
        refine ⟨x, .cons h hpasses, hnone, ?_⟩
        rw [hrun]
        simp
      · right
        refine ⟨s :: front, t, back, x, e, rfl, .cons h hpasses, hfail, hsome, ?_⟩
        rw [hrun]
        simp

/-! ## Runs from the start -/

/-- Nothing has been noted yet; asset and configuration may be any. -/
structure IsFresh (p : Progress) : Prop where
  books : p.toBooks = .empty
  called : p.called = []

theorem isFresh_ofSource (config : Config) (source : Source) : (ofSource config source).IsFresh :=
  ⟨rfl, rfl⟩

/-- How a run of `plan` that began with the subject `x` may end: the progress that it leaves behind,
and the failure that stopped it. -/
inductive Ends (plan : List Stage) (x : Subject) : Progress → Option StageFailure → Prop
  /-- All stages came to their end. -/
  | passed {config : Config} {asset : Asset} :
      Passes plan x ⟨⟨plan.map Stage.id, [], false⟩, config, asset⟩ →
      Ends plan x ⟨⟨⟨plan.map Stage.id, [], false⟩, config, asset⟩, plan.map Stage.id⟩ none
  /-- The stages of a front did, and then `s` failed. -/
  | stopped {front back : List Stage} {s : Stage} {y : Subject} {e : StageFailure} :
      plan = front ++ s :: back → Passes front x y → (s.work y).failure = some e →
      Ends plan x
        ⟨⟨⟨front.map Stage.id, [(s.id, e)], true⟩, (s.work y).state.config, (s.work y).state.asset⟩,
          front.map Stage.id ++ [s.id]⟩ (some e)

theorem ends_runStages {p : Progress} {plan : List Stage} (hfresh : p.IsFresh)
    (hkeeps : ∀ s ∈ plan, s.KeepsBooks) (hids : (plan.map Stage.id).Nodup) :
    Ends plan p.toSubject (p.runStages plan).state (p.runStages plan).failure := by
  obtain ⟨hbooks, hcalled⟩ := hfresh
  have hcompleted : p.completed = [] := congrArg Books.completed hbooks
  -- Behind a front of the plan the books hold its names and nothing else.
  have hfront {front : List Stage} {y : Subject} (hplan : front <+: plan)
      (hpasses : Passes front p.toSubject y) :
      y.toBooks = ⟨front.map Stage.id, [], false⟩ := by
    rw [hpasses.books (fun s hs => hkeeps s (hplan.subset hs)), hbooks]
    · rfl
    · rw [hcompleted, List.nil_append]
      exact hids.sublist (hplan.sublist.map _)
  rcases runStages_cases p plan with ⟨y, hpasses, hnone, hstate⟩ |
    ⟨front, s, back, y, e, hplan, hpasses, hfail, hsome, hstate⟩
  · have hy := hfront List.prefix_rfl hpasses
    obtain ⟨books, config, asset⟩ := y
    obtain rfl : books = _ := hy
    rw [hstate, hnone, hcalled]
    exact .passed hpasses
  · have hprefix : front <+: plan := ⟨s :: back, hplan.symm⟩
    have hs : (s.work y).state.toBooks = ⟨front.map Stage.id, [], false⟩ :=
      (hkeeps s (by simp [hplan]) y).trans (hfront hprefix hpasses)
    rw [hstate, hsome, hcalled]
    unfold Subject.fail
    rw [hs]
    exact .stopped hplan hpasses hfail

end Progress

namespace Registry

variable {r : Registry} {layer : Option Layer} {p : Progress}

/-- A run runs the stages of its plan. -/
theorem run_of_plan {plan : List Stage} (h : r.plan p.config layer = .ok plan) :
    r.run layer p = .ok (p.runStages plan) := by
  unfold run
  rw [h]
  rfl

theorem exists_plan_of_run {a : Attempt StageFailure Notice Progress}
    (h : r.run layer p = .ok a) :
    ∃ plan, r.plan p.config layer = .ok plan ∧ a = p.runStages plan := by
  cases hplan : r.plan p.config layer with
  | ok plan =>
    rw [run_of_plan hplan] at h
    cases h
    exact ⟨plan, rfl, rfl⟩
  | error e =>
    unfold run at h
    rw [hplan] at h
    cases h

end Registry

end SvgAssets.Pipeline
