/-
# SvgAssets.Proofs.Pipeline.Bookkeeping -- what a run notes

Where nothing was noted before, a run of a plan leaves one of two records behind. Either all stages
came to their end, and nothing failed; or the stages of a front did, the next one failed, and the
rest was not called (`Progress.Ends`). The stages are arbitrary, but for the books, which they may
read and not change; the plan brings with it that their identifiers differ, so that no stage is
noted as completed under the name of another one. What the single entries have to do with each other
follows from the two cases.

Of the built-in stages the last one assembles the record, so there is a record exactly if all of
them came to their end; and the one that takes the styles out of the markup leaves neither markup
nor styles behind when it fails.
-/
import SvgAssets.Proofs.Pipeline.BuiltInPlan
import SvgAssets.Proofs.Pipeline.RegistryPlan

namespace SvgAssets.Pipeline

namespace Progress

/-! ## What the entries have to do with each other -/

namespace Ends

variable {plan : List Stage} {x : Subject} {q : Progress} {f : Option StageFailure}

/-- The stages are called in the order of the plan, up to one of them. -/
theorem called_isPrefix (h : Ends plan x q f) : q.called <+: plan.map Stage.id := by
  cases h with
  | passed _ => exact List.prefix_rfl
  | @stopped front back s _ _ hplan _ _ =>
    subst hplan
    exact ⟨back.map Stage.id, by simp⟩

theorem isSkipped_iff (h : Ends plan x q f) : q.isSkipped = true ↔ q.failures ≠ [] := by
  cases h <;> simp

theorem isSome_failure_iff (h : Ends plan x q f) : f.isSome = true ↔ q.failures ≠ [] := by
  cases h <;> simp

/-- Completed are the called stages of which no failure is noted. -/
theorem mem_completed_iff (h : Ends plan x q f) (hids : (plan.map Stage.id).Nodup) {id : Text} :
    id ∈ q.completed ↔ id ∈ q.called ∧ id ∉ q.failures.names := by
  cases h with
  | passed _ => simp [Entries.names]
  | @stopped front back s y e hplan _ _ =>
    -- The stage that failed has not come to its end under the name of another one.
    have hs : s.id ∉ front.map Stage.id := by
      subst hplan
      rw [List.map_append, List.map_cons] at hids
      intro hmem
      exact List.disjoint_of_nodup_append hids hmem List.mem_cons_self
    simp only [Entries.names, List.map_cons, List.map_nil, List.mem_append, List.mem_singleton]
    constructor
    · intro hid
      refine ⟨.inl hid, ?_⟩
      rintro rfl
      exact hs hid
    · rintro ⟨hid | hid, hne⟩
      · exact hid
      · exact absurd hid hne

/-- Nothing failed and the plan is completed, or one stage failed, which was the last one called. -/
theorem failures_cases (h : Ends plan x q f) (hids : (plan.map Stage.id).Nodup) :
    q.failures = [] ∧ q.completed = plan.map Stage.id ∨
      ∃ id e, q.failures = [(id, e)] ∧ q.called.getLast? = some id ∧ id ∉ q.completed := by
  have hcompleted : ∀ id, id ∈ q.completed ↔ _ := fun id => h.mem_completed_iff hids
  cases h with
  | passed _ => exact .inl ⟨rfl, rfl⟩
  | @stopped front back s y e _ _ _ =>
    right
    refine ⟨s.id, e, rfl, by simp, ?_⟩
    rw [hcompleted]
    simp [Entries.names]

/-- The asset is left out where something failed. -/
theorem result?_eq_none (h : Ends plan x q f) (hfailures : q.failures ≠ []) :
    q.result? = none := by
  unfold result?
  rw [if_pos (h.isSkipped_iff.2 hfailures)]

end Ends

/-- A run that a stage stopped yields no record. -/
theorem result?_eq_none_of_failure {p : Progress} {stages : List Stage}
    (h : (p.runStages stages).failure.isSome = true) :
    (p.runStages stages).state.result? = none := by
  rcases runStages_cases p stages with ⟨x, -, hnone, -⟩ | ⟨front, s, back, x, e, -, -, -, -, hstate⟩
  · rw [hnone] at h
    cases h
  · rw [hstate]
    rfl

end Progress

/-! ## The built-in stages -/

/-- Styles that cannot be read are the only reason why taking them out fails, and then neither
markup nor styles are left. -/
theorem Work.styles_of_failure {config : Config} {a : Asset} {e : StageFailure}
    (h : (Work.styles config a).failure = some e) :
    (∃ detail, e = .skip ⟨.invalidStyle, (Work.styles config a).state.source.path, detail⟩) ∧
      (Work.styles config a).state.source.svg = [] ∧
      (Work.styles config a).state.source.css = [] := by
  unfold Work.styles at h ⊢
  split at h
  · cases h
    exact ⟨⟨_, rfl⟩, rfl, rfl⟩
  · cases h

/-- The stage that takes the styles out of the markup. -/
theorem work_of_id_eq : ∀ s ∈ builtInStages, s.id = "S1.01".toList →
    s.work = Work.styles.onSubject := by
  simp only [builtInStages, List.forall_mem_cons]
  refine ⟨?_, ?_, ?_, fun _ => trivial, ?_, ?_, ?_, ?_, ?_, ?_, ?_, by simp⟩ <;>
    exact fun hid => absurd hid (by decide)

/-- **There is a record exactly if all planned stages came to their end.** -/
theorem exists_result_iff {config : Config} {plan : List Stage} {x : Subject} {q : Progress}
    {f : Option StageFailure} (hplan : builtIn.plan config none = .ok plan)
    (h : Progress.Ends plan x q f) (hx : x.config = config) :
    (∃ record, q.result? = some record) ↔ ∀ s ∈ plan, s.id ∈ q.completed := by
  have hids := Registry.nodup_ids_of_plan hplan
  cases h with
  | passed hpasses =>
    constructor
    · intro _ s hs
      exact List.mem_map_of_mem hs
    · intro _
      exact ⟨_, record_of_passes hplan hpasses hx⟩
  | @stopped front back s y e hplan' hpasses hfail =>
    have hends := Progress.Ends.stopped hplan' hpasses hfail
    constructor
    · rintro ⟨record, hresult⟩
      rw [hends.result?_eq_none (by simp)] at hresult
      cases hresult
    · intro hall
      have hs : s ∈ plan := by
        simp [hplan']
      -- The stage that stopped the run is planned and not completed.
      have hnot := ((hends.mem_completed_iff hids).1 (hall s hs)).2
      simp [Entries.names] at hnot

theorem texts_of_ends {plan : List Stage} {x : Subject} {q : Progress} {f : Option StageFailure}
    (hstages : ∀ s ∈ plan, s ∈ builtInStages) (h : Progress.Ends plan x q f) {e : StageFailure}
    (he : ("S1.01".toList, e) ∈ q.failures) :
    (∃ detail, e = .skip ⟨.invalidStyle, q.asset.source.path, detail⟩) ∧
      q.asset.source.svg = [] ∧ q.asset.source.css = [] := by
  cases h with
  | passed _ => simp at he
  | @stopped front back s y e' hplan hpasses hfail =>
    obtain ⟨hid, rfl⟩ : "S1.01".toList = s.id ∧ e = e' := by
      simpa using he
    have hs : s ∈ plan := by
      simp [hplan]
    rw [work_of_id_eq s (hstages s hs) hid.symm] at hfail ⊢
    exact Work.styles_of_failure hfail

namespace Registry

/-- **What a run notes.** A run that has a plan comes back with a progress, whatever its stages do
to the asset and the configuration. If nothing was noted before, and the stages leave the books
alone, the stages called are those of the plan, in order, up to one of them; completed are those of
them that did not fail. Either nothing failed and the plan is completed, or the last stage called
failed and nothing else did. The asset is left out exactly if something failed. There is no record
once a stage has failed, whatever it did to the books. With the built-in stages there is one exactly
if all planned stages are completed; and styles that cannot be read leave neither markup nor styles
behind. -/
theorem run_bookkeeping :
    (∀ (r : Registry) (p : Progress) (plan : List Stage), p.IsFresh →
      r.plan p.config none = .ok plan → (∀ s ∈ plan, s.KeepsBooks) →
        ∃ a, r.run none p = .ok a ∧
          Progress.Ends plan p.toSubject a.state a.failure ∧
          a.state.called <+: plan.map Stage.id ∧ a.state.called.Nodup ∧
          (∀ id, id ∈ a.state.completed ↔
            id ∈ a.state.called ∧ id ∉ a.state.failures.names) ∧
          (a.state.failures = [] ∧ a.state.completed = plan.map Stage.id ∨
            ∃ id e, a.state.failures = [(id, e)] ∧ a.state.called.getLast? = some id ∧
              id ∉ a.state.completed) ∧
          (a.state.isSkipped = true ↔ a.state.failures ≠ []) ∧
          (a.failure.isSome = true ↔ a.state.failures ≠ [])) ∧
    (∀ (r : Registry) config source a, r.process config source = .ok a →
      (a.failure.isSome = true → a.state.result? = none) ∧
        ((∀ s ∈ r.stages, s.KeepsBooks) → a.state.failures ≠ [] → a.state.result? = none)) ∧
    ∀ config source, ∃ plan a, builtIn.plan config none = .ok plan ∧
      builtIn.process config source = .ok a ∧
      ((∃ record, a.state.result? = some record) ↔ ∀ s ∈ plan, s.id ∈ a.state.completed) ∧
      ∀ e, ("S1.01".toList, e) ∈ a.state.failures →
        (∃ detail, e = .skip ⟨.invalidStyle, a.state.asset.source.path, detail⟩) ∧
          a.state.asset.source.svg = [] ∧ a.state.asset.source.css = [] := by
  refine ⟨?_, ?_, ?_⟩
  · intro r p plan hfresh hplan hkeeps
    have hids := nodup_ids_of_plan hplan
    have hends := Progress.ends_runStages hfresh hkeeps hids
    refine ⟨p.runStages plan, run_of_plan hplan, hends, hends.called_isPrefix, ?_, ?_, ?_, ?_, ?_⟩
    · exact hids.sublist hends.called_isPrefix.sublist
    · intro id
      exact hends.mem_completed_iff hids
    · exact hends.failures_cases hids
    · exact hends.isSkipped_iff
    · exact hends.isSome_failure_iff
  · intro r config source a hprocess
    obtain ⟨plan, hplan, rfl⟩ := exists_plan_of_run hprocess
    refine ⟨Progress.result?_eq_none_of_failure, ?_⟩
    intro hkeeps hfailures
    have hends := Progress.ends_runStages (Progress.isFresh_ofSource config source)
      (fun s hs => hkeeps s (mem_stages_of_plan hplan hs)) (nodup_ids_of_plan hplan)
    exact hends.result?_eq_none hfailures
  · intro config source
    obtain ⟨front, last, hplan, -, hstages⟩ := exists_plan_builtIn config
    have hends := ends_of_builtInStages hstages (nodup_ids_of_plan hplan) config source
    refine ⟨_, _, hplan, run_of_plan (p := .ofSource config source) hplan, ?_, ?_⟩
    · exact exists_result_iff hplan hends rfl
    · intro e he
      exact texts_of_ends hstages hends he

/-- A stage that changes the markup, one that changes the styles and then fails, and a third one. -/
def stoppingCalls : List Stage :=
  [{ idleStage "S0.01" .validation [] with
      work := fun x => .done { x with asset := x.asset.withSvg "<svg/>".toList } },
    { idleStage "S0.02" .validation ["S0.01"] with
      work := fun x =>
        .fail { x with asset := x.asset.withCss "a".toList } (.error "stopped") },
    idleStage "S1.01" .extraction ["S0.02"]]

/-- The instances are a run that the second of three stages stops, after its change of the styles,
and the built-in stages on markup whose styles have a brace too many. -/
theorem run_bookkeeping_stopping :
    (∃ a, (ofCalls stoppingCalls).run none (.ofSource {} ⟨[], [], [], [], []⟩) = .ok a ∧
      a.state.called = ["S0.01".toList, "S0.02".toList] ∧
      a.state.failures = [("S0.02".toList, .error "stopped")] ∧
      (∀ id, id ∈ a.state.completed ↔ id ∈ a.state.called ∧ id ∉ a.state.failures.names) ∧
      a.state.asset.source.svg = "<svg/>".toList ∧ a.state.asset.source.css = "a".toList ∧
      a.state.isSkipped = true) ∧
    ∃ a, builtIn.process {} ⟨[], [],
        "<svg width=\"1\" height=\"1\"><style>\x7d</style></svg>".toList, [], []⟩ = .ok a ∧
      a.state.failures.names = ["S1.01".toList] ∧ a.state.asset.source.svg = [] ∧
      a.state.asset.source.css = [] ∧ a.state.result? = none := by
  constructor
  · have hclosed : (ofCalls stoppingCalls).IsClosed := by
      unfold IsClosed
      decide +kernel
    have hplan : (ofCalls stoppingCalls).plan {} none = .ok stoppingCalls := by
      rw [plan_of_isClosed hclosed]
      apply dependencyOrder_eq_self <;> decide +kernel
    have hkeeps : ∀ s ∈ stoppingCalls, s.KeepsBooks := by
      simp only [stoppingCalls, List.forall_mem_cons]
      exact ⟨fun _ => rfl, fun _ => rfl, fun _ => rfl, by simp⟩
    obtain ⟨a, hrun, -, -, -, hcompleted, -, hskipped, -⟩ :=
      run_bookkeeping.1 _ (.ofSource {} ⟨[], [], [], [], []⟩) _ (Progress.isFresh_ofSource _ _)
        hplan hkeeps
    obtain rfl := Except.ok.inj ((run_of_plan hplan).symm.trans hrun)
    have hfailures : (Progress.runStages (.ofSource {} ⟨[], [], [], [], []⟩)
        stoppingCalls).state.failures = [("S0.02".toList, .error "stopped")] := by
      rfl
    refine ⟨_, hrun, rfl, hfailures, hcompleted, rfl, rfl, ?_⟩
    rw [hskipped, hfailures]
    simp
  · obtain ⟨plan, a, -, hprocess, -, hstyles⟩ := run_bookkeeping.2.2 {} ⟨[], [],
      "<svg width=\"1\" height=\"1\"><style>\x7d</style></svg>".toList, [], []⟩
    have hrun : (builtIn.process {} ⟨[], [],
        "<svg width=\"1\" height=\"1\"><style>\x7d</style></svg>".toList, [], []⟩).map
          (fun a => a.state.failures.names) = .ok ["S1.01".toList] := by
      decide +kernel
    rw [hprocess] at hrun
    have hnames := Except.ok.inj hrun
    obtain ⟨⟨_, e⟩, hfailures, rfl⟩ := List.map_eq_singleton_iff.1 hnames
    have he : ("S1.01".toList, e) ∈ a.state.failures := by
      rw [hfailures]
      exact List.mem_singleton_self _
    obtain ⟨-, hsvg, hcss⟩ := hstyles e he
    refine ⟨a, hprocess, hnames, hsvg, hcss, (run_bookkeeping.2.1 _ _ _ a hprocess).2 ?_ ?_⟩
    · exact fun s hs => (keeps_builtInStages s hs).2
    · rw [hfailures]
      simp

end Registry

end SvgAssets.Pipeline
