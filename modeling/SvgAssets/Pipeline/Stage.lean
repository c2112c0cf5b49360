/-
# SvgAssets.Pipeline.Stage -- stages and their registry

A stage is one step of the work on an asset. It belongs to a layer, names the stages that it depends
on, and may be enabled by the configuration only. What it works on is the asset together with the
configuration and the books of what was done, so that a stage could change the configuration under
which later ones work, and also what is noted of the earlier ones. A registry holds stages in the
order in which they were registered; no two of them have the same identifier.
-/
import SvgAssets.Attempt
import SvgAssets.Pipeline.Asset

namespace SvgAssets.Pipeline

/-- The layers of the work, in order. -/
inductive Layer where
  | validation
  | extraction
  | templating
  | namespacing
  | assembly
  deriving DecidableEq

namespace Layer

/-- All layers, in order. -/
def all : List Layer := [.validation, .extraction, .templating, .namespacing, .assembly]

/-- The place of a layer in the order. -/
def rank : Layer → Nat
  | .validation => 0
  | .extraction => 1
  | .templating => 2
  | .namespacing => 3
  | .assembly => 4

/-- The name of a layer. -/
def name : Layer → String
  | .validation => "VALIDATION"
  | .extraction => "EXTRACTION"
  | .templating => "TEMPLATING"
  | .namespacing => "NAMESPACING"
  | .assembly => "ASSEMBLY"

end Layer

/-- What is noted of the runs on an asset. -/
structure Books where
  /-- The stages that came to their end, each once. -/
  completed : List Text
  failures : Entries StageFailure
  isSkipped : Bool

/-- The books in which nothing is noted. -/
def Books.empty : Books := ⟨[], [], false⟩

/-- What a stage works on: an asset, under a configuration, and the books. -/
structure Subject extends Books where
  config : Config
  asset : Asset

/-- A stage. Its work changes the subject, may report redeclarations of variables, and may fail. -/
structure Stage where
  id : Text
  layer : Layer
  dependencies : List Text
  description : String
  isEnabled : Config → Bool
  work : Subject → Attempt StageFailure Template.Redeclaration Subject

/-- A registry of stages. -/
structure Registry where
  stages : List Stage
  nodup : (stages.map Stage.id).Nodup

/-- A stage cannot be registered: its identifier is taken. -/
structure DuplicateStage where
  id : Text
  deriving DecidableEq

/-- The wording of a duplicate registration. -/
def DuplicateStage.message (e : DuplicateStage) : String :=
  "Duplicate stage ID: " ++ String.ofList e.id

namespace Registry

/-- A registry without stages. -/
def empty : Registry := ⟨[], List.nodup_nil⟩

/-- The identifiers of the registered stages. -/
def ids (r : Registry) : List Text := r.stages.map Stage.id

/-- Register a stage behind all others. -/
def register (r : Registry) (s : Stage) : Except DuplicateStage Registry :=
  if h : s.id ∈ r.stages.map Stage.id then .error ⟨s.id⟩
  else
    .ok ⟨r.stages ++ [s], by
      rw [List.map_append, List.nodup_append]
      refine ⟨r.nodup, by simp, ?_⟩
      intro a ha b hb
      simp only [List.map_cons, List.map_nil, List.mem_singleton] at hb
      rintro rfl
      exact h (hb ▸ ha)⟩

end Registry

end SvgAssets.Pipeline
