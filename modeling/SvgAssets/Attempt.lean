/-
# SvgAssets.Attempt -- work that may stop half way

An attempt changes a state, reports notices on the way and may stop at a failure. What was done
before the failure stays done: the state of a failed attempt is the one that it reached. Attempts
are put in sequence by `andThen`, which goes on only behind an attempt that did not fail.
-/

namespace SvgAssets

/-- The outcome of work on a state `σ` with notices `ν` and failures `ε`. -/
structure Attempt (ε ν σ : Type) where
  state : σ
  notices : List ν
  failure : Option ε

namespace Attempt

variable {ε ν σ τ : Type}

/-- Nothing left to do. -/
def done (state : σ) : Attempt ε ν σ := ⟨state, [], none⟩

/-- A failure that leaves the state as it is. -/
def fail (state : σ) (failure : ε) : Attempt ε ν σ := ⟨state, [], some failure⟩

/-- Whether the attempt came to its end. -/
def completed (a : Attempt ε ν σ) : Bool := a.failure.isNone

/-- The same attempt, seen on a larger state. -/
def onState (f : σ → τ) (a : Attempt ε ν σ) : Attempt ε ν τ :=
  ⟨f a.state, a.notices, a.failure⟩

/-- Go on with `next` unless `a` failed. -/
def andThen (a : Attempt ε ν σ) (next : σ → Attempt ε ν σ) : Attempt ε ν σ :=
  match a.failure with
  | some e => ⟨a.state, a.notices, some e⟩
  | none => let b := next a.state; ⟨b.state, a.notices ++ b.notices, b.failure⟩

/-- One step after the other for each item, up to the first failure. -/
def forEach {α : Type} (step : σ → α → Attempt ε ν σ) (state : σ) (items : List α) :
    Attempt ε ν σ :=
  match items with
  | [] => done state
  | item :: rest => (step state item).andThen fun state => forEach step state rest

@[simp] theorem done_andThen (state : σ) (next : σ → Attempt ε ν σ) :
    (done state).andThen next = next state := rfl

@[simp] theorem andThen_done (a : Attempt ε ν σ) : a.andThen done = a := by
  obtain ⟨state, notices, failure⟩ := a
  cases failure <;> simp [andThen, done]

theorem andThen_assoc (a : Attempt ε ν σ) (f g : σ → Attempt ε ν σ) :
    (a.andThen f).andThen g = a.andThen fun state => (f state).andThen g := by
  obtain ⟨state, notices, failure⟩ := a
  cases failure with
  | some e => rfl
  | none =>
    simp only [andThen]
    cases (f state).failure <;> simp

theorem forEach_append {α : Type} (step : σ → α → Attempt ε ν σ) (state : σ) (xs ys : List α) :
    forEach step state (xs ++ ys) =
      (forEach step state xs).andThen fun state => forEach step state ys := by
  induction xs generalizing state with
  | nil => rfl
  | cons x xs ih => simp [forEach, ih, andThen_assoc]

theorem state_andThen_of_none {a : Attempt ε ν σ} (h : a.failure = none)
    (next : σ → Attempt ε ν σ) : (a.andThen next).state = (next a.state).state := by
  unfold andThen
  rw [h]

theorem notices_andThen_of_none {a : Attempt ε ν σ} (h : a.failure = none)
    (next : σ → Attempt ε ν σ) :
    (a.andThen next).notices = a.notices ++ (next a.state).notices := by
  unfold andThen
  rw [h]

/-- A failure is passed on. -/
theorem andThen_of_some {a : Attempt ε ν σ} {e : ε} (h : a.failure = some e)
    (next : σ → Attempt ε ν σ) : a.andThen next = a := by
  obtain ⟨state, notices, failure⟩ := a
  cases h
  rfl

theorem failure_andThen_of_none {a : Attempt ε ν σ} (h : a.failure = none)
    (next : σ → Attempt ε ν σ) : (a.andThen next).failure = (next a.state).failure := by
  unfold andThen
  rw [h]

theorem failure_andThen_of_some {a : Attempt ε ν σ} {e : ε} (h : a.failure = some e)
    (next : σ → Attempt ε ν σ) : (a.andThen next).failure = some e := by
  rw [andThen_of_some h, h]

/-- What is done together fails with the failure of the first part or, behind it, of the second. -/
theorem failure_andThen_eq_some_iff {a : Attempt ε ν σ} {next : σ → Attempt ε ν σ} {e : ε} :
    (a.andThen next).failure = some e ↔
      a.failure = some e ∨ a.failure = none ∧ (next a.state).failure = some e := by
  cases h : a.failure with
  | none => simp [failure_andThen_of_none h]
  | some e' => simp [failure_andThen_of_some h]

theorem failure_andThen_eq_none_iff {a : Attempt ε ν σ} {next : σ → Attempt ε ν σ} :
    (a.andThen next).failure = none ↔ a.failure = none ∧ (next a.state).failure = none := by
  cases h : a.failure with
  | none => simp [failure_andThen_of_none h]
  | some e => simp [failure_andThen_of_some h]

/-- What holds of the state of `a`, and is kept by `next`, holds of the state that both reach. -/
theorem andThen_preserves {P : σ → Prop} {a : Attempt ε ν σ} {next : σ → Attempt ε ν σ}
    (ha : P a.state) (hnext : ∀ state, P state → P (next state).state) :
    P (a.andThen next).state := by
  unfold andThen
  split
  · exact ha
  · exact hnext _ ha

/-- What every step keeps, all steps together keep. -/
theorem forEach_preserves {α : Type} {P : σ → Prop} {step : σ → α → Attempt ε ν σ}
    {items : List α} (hstep : ∀ item ∈ items, ∀ state, P state → P (step state item).state)
    {state : σ} (h : P state) : P (forEach step state items).state := by
  induction items generalizing state with
  | nil => exact h
  | cons item rest ih =>
    rw [List.forall_mem_cons] at hstep
    exact andThen_preserves (hstep.1 state h) fun state => ih hstep.2

/-- What every step keeps that does not fail, all steps keep together if none fails. -/
theorem forEach_preserves_of_none {α : Type} {P : σ → Prop} {step : σ → α → Attempt ε ν σ}
    {items : List α} (hstep : ∀ item ∈ items, ∀ state, (step state item).failure = none →
      P state → P (step state item).state)
    {state : σ} (hend : (forEach step state items).failure = none) (h : P state) :
    P (forEach step state items).state := by
  induction items generalizing state with
  | nil => exact h
  | cons item rest ih =>
    rw [List.forall_mem_cons] at hstep
    rw [forEach, failure_andThen_eq_none_iff] at hend
    rw [forEach, state_andThen_of_none hend.1]
    exact ih hstep.2 hend.2 (hstep.1 state hend.1 h)

/-- Steps that do not fail are a fold over the state. -/
theorem forEach_of_completes {α : Type} {step : σ → α → Attempt ε ν σ} {f : σ → α → σ}
    {items : List α} (h : ∀ item ∈ items, ∀ state,
      (step state item).state = f state item ∧ (step state item).failure = none) (state : σ) :
    (forEach step state items).state = items.foldl f state ∧
      (forEach step state items).failure = none := by
  induction items generalizing state with
  | nil => exact ⟨rfl, rfl⟩
  | cons item rest ih =>
    rw [List.forall_mem_cons] at h
    obtain ⟨hstate, hfailure⟩ := h.1 state
    rw [forEach, state_andThen_of_none hfailure, failure_andThen_of_none hfailure, hstate]
    exact ih h.2 _

/-- When no step fails, what a step needs holds of each item. -/
theorem forall_mem_of_forEach {α : Type} {Q : α → Prop} {step : σ → α → Attempt ε ν σ}
    (hstep : ∀ state item, (step state item).failure = none → Q item) {state : σ}
    {items : List α} (h : (forEach step state items).failure = none) : ∀ item ∈ items, Q item := by
  induction items generalizing state with
  | nil => simp
  | cons item rest ih =>
    rw [forEach, failure_andThen_eq_none_iff] at h
    rw [List.forall_mem_cons]
    exact ⟨hstep state item h.1, ih h.2⟩

/-- Steps fail together at the first item whose step fails. -/
theorem failure_forEach_eq_some_iff {α : Type} {step : σ → α → Attempt ε ν σ} {state : σ}
    {items : List α} {e : ε} :
    (forEach step state items).failure = some e ↔
      ∃ front item back, items = front ++ item :: back ∧
        (forEach step state front).failure = none ∧
        (step (forEach step state front).state item).failure = some e := by
  constructor
  · intro h
    induction items generalizing state with
    | nil => cases h
    | cons item rest ih =>
      rw [forEach, failure_andThen_eq_some_iff] at h
      rcases h with h | ⟨hnone, h⟩
      · exact ⟨[], item, rest, rfl, rfl, h⟩
      · obtain ⟨front, item', back, rfl, hfront, hitem⟩ := ih h
        refine ⟨item :: front, item', back, rfl, ?_, ?_⟩
        · rw [forEach, failure_andThen_of_none hnone]
          exact hfront
        · rw [forEach, state_andThen_of_none hnone]
          exact hitem
  · rintro ⟨front, item, back, rfl, hfront, hitem⟩
    rw [forEach_append, failure_andThen_of_none hfront, forEach]
    exact failure_andThen_of_some hitem _

end Attempt

end SvgAssets
