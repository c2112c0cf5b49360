/-
# SvgAssets.Pipeline.Plan -- the order in which stages run

A plan lists the stages that the configuration enables, or those of one layer among them. Every
stage stands behind the stages it depends on; of the stages that are free to run the one of the
lowest layer comes first, and in one layer the one with the least identifier. A dependency on a
stage that is not selected counts as met, but a dependency on one that was never registered is an
error, and so is a cycle.

The stages that are free stand in a queue, and the others wait, each with the dependencies that it
waits for. To list the first stage of the queue may free some of those that wait for it, and these
go into the queue. What still waits when the queue is empty is in a cycle or depends on one.
-/
import SvgAssets.Pipeline.Stage
import SvgAssets.Text.Order

namespace SvgAssets.Pipeline

/-- Why there is no plan. -/
inductive PlanError where
  | unknownDependencies (stage : Text) (missing : List Text)
  /-- The stages that are in a cycle or depend on one. -/
  | circular (ids : List Text)
  deriving DecidableEq

/-- Identifiers as part of a diagnostic. -/
def listedIds (ids : List Text) : String := ", ".intercalate (ids.map String.ofList)

/-- The wording of a plan error. -/
def PlanError.message : PlanError → String
  | .unknownDependencies stage missing =>
    "Stage " ++ String.ofList stage ++ " depends on unknown stage(s): " ++ listedIds missing
  | .circular ids => "Circular dependency detected among: " ++ listedIds ids

namespace Stage

/-- Whether `s` goes before `t` when both are free to run. -/
def goesBefore (s t : Stage) : Bool :=
  s.layer.rank < t.layer.rank || (s.layer.rank == t.layer.rank && Text.le s.id t.id)

end Stage

/-- A stage that is to come, and the dependencies that it waits for. -/
structure Waiting where
  stage : Stage
  pending : List Text

namespace Waiting

/-- A stage waits for those of its dependencies that are among `ids`. -/
def ofStage (ids : List Text) (s : Stage) : Waiting :=
  ⟨s, s.dependencies.filter fun d => ids.contains d⟩

/-- Nothing is waited for. -/
def isFree (w : Waiting) : Bool := w.pending.isEmpty

/-- The dependency `id` is met. -/
def meet (id : Text) (w : Waiting) : Waiting :=
  { w with pending := w.pending.filter fun d => d != id }

end Waiting

/-- Put a stage into a queue that is in order. -/
def enqueue (queue : List Stage) (s : Stage) : List Stage :=
  match queue with
  | [] => [s]
  | t :: queue => if s.goesBefore t then s :: t :: queue else t :: enqueue queue s

theorem enqueue_perm (queue : List Stage) (s : Stage) : (enqueue queue s).Perm (s :: queue) := by
  induction queue with
  | nil => exact .refl _
  | cons t queue ih =>
    rw [enqueue]
    split
    · exact .refl _
    · exact (ih.cons t).trans (.swap s t queue)

/-- The stages to come: those that are free, in order, and those that wait. -/
structure Agenda where
  ready : List Stage
  waiting : List Waiting

namespace Agenda

/-- Move the stages that wait for nothing into the queue. -/
def promote (a : Agenda) : Agenda where
  ready := ((a.waiting.filter fun w => w.isFree).map Waiting.stage).foldl enqueue a.ready
  waiting := a.waiting.filter fun w => !w.isFree

/-- The dependency `id` is met for all that wait. -/
def meet (id : Text) (a : Agenda) : Agenda :=
  { a with waiting := a.waiting.map (Waiting.meet id) }

/-- The agenda before any of the stages is listed. -/
def ofStages (stages : List Stage) : Agenda :=
  promote ⟨[], stages.map (Waiting.ofStage (stages.map Stage.id))⟩

theorem foldl_enqueue_perm (stages queue : List Stage) :
    (stages.foldl enqueue queue).Perm (stages ++ queue) := by
  induction stages generalizing queue with
  | nil => exact .refl _
  | cons s stages ih =>
    exact (ih _).trans (((enqueue_perm queue s).append_left stages).trans List.perm_middle)

/-- The number of stages to come. -/
def size (a : Agenda) : Nat := a.ready.length + a.waiting.length

theorem size_promote (a : Agenda) : a.promote.size = a.size := by
  have hready := (foldl_enqueue_perm
    ((a.waiting.filter fun w => w.isFree).map Waiting.stage) a.ready).length_eq
  have hwaiting := (List.filter_append_perm (fun w => w.isFree) a.waiting).length_eq
  simp only [size, promote, List.length_append, List.length_map] at hready hwaiting ⊢
  omega

theorem size_meet (id : Text) (a : Agenda) : (a.meet id).size = a.size := by
  simp [size, meet]

/-- List the stages that are free or become so, each time the first of the queue. -/
def listed : Agenda → List Stage
  | ⟨[], _⟩ => []
  | ⟨s :: ready, waiting⟩ => s :: listed (meet s.id ⟨ready, waiting⟩).promote
termination_by a => a.size
decreasing_by
  rw [size_promote, size_meet]
  simp [size]

end Agenda

/-- The stages in an order that respects their dependencies on each other. -/
def dependencyOrder (stages : List Stage) : Except PlanError (List Stage) :=
  let listed := (Agenda.ofStages stages).listed
  if listed.length = stages.length then .ok listed
  else
    .error (.circular (Text.sort
      ((stages.map Stage.id).filter fun id => !(listed.map Stage.id).contains id)))

namespace Registry

/-- The dependencies of a stage that were never registered. -/
def missingOf (r : Registry) (s : Stage) : List Text :=
  s.dependencies.filter fun d => !r.ids.contains d

/-- The stages that the configuration enables, of all layers or of one. -/
def selected (r : Registry) (config : Config) (layer : Option Layer) : List Stage :=
  r.stages.filter fun s => s.isEnabled config && (layer.isNone || layer == some s.layer)

/-- The plan of a run. -/
def plan (r : Registry) (config : Config) (layer : Option Layer) : Except PlanError (List Stage) :=
  match r.stages.find? fun s => !(r.missingOf s).isEmpty with
  | some s => .error (.unknownDependencies s.id (r.missingOf s))
  | none => dependencyOrder (r.selected config layer)

end Registry

end SvgAssets.Pipeline
