import Waveplan.Shot.Sequencers

/-!
This module contains whole shots: their steps, variables, lanes and devices, and what every device
must be programmed with.
-/

namespace Waveplan

structure VariableDefinition where
  name : String
  value : Expression
  deriving DecidableEq, Repr

structure Shot (α : Type) where
  steps : List Step
  definitions : List VariableDefinition
  lanes : Dictionary Lane
  devices : Dictionary (Device α)
  deriving Repr, BEq

structure SequencerParameters (α : Type) where
  timeStep : TimeStep
  trigger : Trigger
  sequence : Instruction α

/--
What a camera must be programmed with: its pictures and their exposures in seconds.
-/
structure CameraParameters (α : Type) where
  pictureNames : List String
  exposures : List α

structure ShotParameters (α : Type) where
  /-- The duration of the shot in seconds. -/
  duration : α
  sequencers : Dictionary (SequencerParameters α)
  cameras : Dictionary (CameraParameters α)

inductive ShotError (α : Type) where
  | variable (name : String) (error : EvaluationError)
  | compilation (error : CompilationError α)
  deriving Repr

namespace ShotError

variable {α : Type} [Number α]

def message : ShotError α → String
  | .variable name _ => s!"could not evaluate variable '{name}'"
  | .compilation error => error.message

def causes : ShotError α → List String
  | .variable _ error => [error.message]
  | .compilation error => error.causes

/--
Whether a sum or a product did not fit a word, which ends the program.
-/
def isOverflow : ShotError α → Bool
  | .variable _ _ => false
  | .compilation error => error.isOverflow

end ShotError

namespace Shot

variable {α : Type} [Number α] [Kernel α]

/--
The values of variables, each defined by an expression over the ones before it.
-/
def namespaceFrom (scope : Namespace α) :
    List VariableDefinition → Except (ShotError α) (Namespace α)
  | [] => .ok scope
  | definition :: rest =>
    match definition.value.evaluate scope with
    | .error error => .error (.variable definition.name error)
    | .ok value => namespaceFrom (scope.insert definition.name value) rest

def namespace? (s : Shot α) : Except (ShotError α) (Namespace α) :=
  namespaceFrom .empty s.definitions

def cameraParameters (s : Shot α) (times : StepTimes α) (camera : String) :
    Except (CompilationError α) (CameraParameters α) :=
  match s.lanes.get? camera with
  | some (.camera blocks) => do
    (Block.checkSpan camera blocks times.size).mapError .lane
    .ok ⟨CameraLane.pictureNames blocks, CameraLane.exposures blocks times⟩
  | some lane => .error (.notACameraLane camera lane.kind)
  | none => .ok ⟨[], []⟩

def validateLanes (s : Shot α) : Except (CompilationError α) Unit :=
  s.lanes.entries.forM fun (name, lane) =>
    (lane.validate name s.steps.length).mapError CompilationError.lane

def instructions (s : Shot α) (root : String) (scope : Namespace α) :
    Except (CompilationError α) (StepTimes α × Dictionary (Instruction α)) := do
  let times ← (StepTimes.evaluate s.steps scope).mapError CompilationError.lane
  let compiled ← ShotContext.compileSequencers ⟨s.lanes, s.devices, times, scope⟩ root
  .ok (times, compiled)

/--
What the devices must be programmed with, under given values of the variables.
-/
def parameters (s : Shot α) (scope : Namespace α) :
    Except (CompilationError α) (ShotParameters α) := do
  s.validateLanes
  let root ← findRoot s.devices
  let (times, compiled) ← s.instructions root scope
  let sequencers := compiled.entries.filterMap fun (name, sequence) =>
    ((s.devices.get? name).bind Device.sequencer?).map fun config =>
      (name, ⟨config.timeStep, config.trigger, sequence⟩)
  let cameras ← (s.devices.entries.filter fun (_, device) => device.isCamera).mapM fun (name, _) =>
    do
      let parameters ← s.cameraParameters times name
      .ok (name, parameters)
  .ok ⟨times.duration, ⟨sequencers⟩, ⟨cameras⟩⟩

def compile (s : Shot α) : Except (ShotError α) (ShotParameters α) := do
  let scope ← s.namespace?
  (s.parameters scope).mapError .compilation

end Shot

end Waveplan
