/-
# SvgAssets.Pipeline.Run -- running a plan on one asset

The stages of a plan run one after the other; the first one that fails ends the run. The plan is
made from the configuration that the run starts with. Behind each stage the run notes in the books
of its subject that it came to its end, or how it failed; what the stage itself may have done to the
books stays. Beside its subject a run keeps which stages were called. No stage sees this.
-/
import SvgAssets.Pipeline.Plan

namespace SvgAssets.Pipeline

namespace Subject

/-- Nothing has been done. -/
def ofSource (config : Config) (source : Source) : Subject :=
  ⟨.empty, config, .ofSource source⟩

/-- Add the stage `id` to those that came to their end. -/
def complete (x : Subject) (id : Text) : Subject :=
  { x with completed := if id ∈ x.completed then x.completed else x.completed ++ [id] }

/-- Note that the stage `id` failed. -/
def fail (x : Subject) (id : Text) (failure : StageFailure) : Subject :=
  { x with failures := x.failures.set id failure, isSkipped := true }

end Subject

/-- A subject, and the calls that brought it about. -/
structure Progress extends Subject where
  /-- The stages that were called, in order. -/
  called : List Text

/-- What is reported during a run. -/
inductive Notice where
  | redeclared (r : Template.Redeclaration)
  | skipped (stage : Text) (s : Skip)
  | failed (stage path : Text) (message : String)

/-- The report of the failure of a stage. -/
def StageFailure.notice (stage path : Text) : StageFailure → Notice
  | .skip s => .skipped stage s
  | .error message => .failed stage path message

namespace Progress

/-- Nothing has been done. -/
def ofSource (config : Config) (source : Source) : Progress := ⟨.ofSource config source, []⟩

/-- Run one stage. -/
def runStage (p : Progress) (s : Stage) : Attempt StageFailure Notice Progress :=
  let a := s.work p.toSubject
  let called := p.called ++ [s.id]
  let notices := a.notices.map Notice.redeclared
  match a.failure with
  | none => ⟨⟨a.state.complete s.id, called⟩, notices, none⟩
  | some e =>
    ⟨⟨a.state.fail s.id e, called⟩, notices ++ [e.notice s.id a.state.asset.source.path], some e⟩

/-- Run stages one after the other, up to the first that fails. -/
def runStages (p : Progress) (stages : List Stage) : Attempt StageFailure Notice Progress :=
  Attempt.forEach runStage p stages

/-- The record, unless the asset is left out. -/
def result? (p : Progress) : Option AssetRecord := if p.isSkipped then none else p.asset.record

end Progress

namespace Registry

/-- Run the stages that the configuration enables, of all layers or of one. -/
def run (r : Registry) (layer : Option Layer) (p : Progress) :
    Except PlanError (Attempt StageFailure Notice Progress) :=
  return p.runStages (← r.plan p.config layer)

/-- Run all enabled stages on a source. -/
def process (r : Registry) (config : Config) (source : Source) :
    Except PlanError (Attempt StageFailure Notice Progress) :=
  r.run none (.ofSource config source)

end Registry

end SvgAssets.Pipeline
