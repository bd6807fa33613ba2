import Waveplan.Expression.Error
import Waveplan.Instruction.Error
import Waveplan.TimeStep

/-!
This module contains the reasons why a lane cannot be compiled.
-/

namespace Waveplan

inductive LaneError (α : Type) where
  | spanMismatch (lane : String) (steps span : Nat)
  | emptyBlock (lane : String)
  | stepDuration (step : String) (error : EvaluationError)
  | negativeDuration (step : String) (duration : α)
  | evaluation (lane step : String) (error : EvaluationError)
  | notBoolean (lane step value : String)
  | notAnalog (lane step value : String)
  | unit (lane step : String) (target : Option PhysicalUnit) (error : UnitError)
  | rampWithoutNeighbours (lane step : String)
  | pictureTooShort (lane step picture : String) (span : α) (timeStep : TimeStep)
  | instruction (error : InstructionError)
  | overflow
  deriving Repr

instance {α : Type} : HasOverflow (LaneError α) := ⟨.overflow⟩

namespace LaneError

variable {α : Type} [Number α]

def message : LaneError α → String
  | .spanMismatch lane steps span =>
    s!"lane '{lane}' spans {span} steps but the shot has {steps}"
  | .emptyBlock lane => s!"lane '{lane}' contains a block spanning no step"
  | .stepDuration step _ => s!"could not evaluate the duration of step '{step}'"
  | .negativeDuration step duration =>
    s!"step '{step}' has a negative duration (" ++ Number.text duration ++ " s)"
  | .evaluation lane step _ => s!"could not evaluate lane '{lane}' at step '{step}'"
  | .notBoolean lane step value =>
    s!"lane '{lane}' at step '{step}' must evaluate to a boolean, got {value}"
  | .notAnalog lane step value =>
    s!"lane '{lane}' at step '{step}' must evaluate to a number or a quantity, got {value}"
  | .unit lane step target _ =>
    s!"lane '{lane}' at step '{step}' cannot be expressed in " ++ PhysicalUnit.describe? target
  | .rampWithoutNeighbours lane step =>
    s!"ramp of lane '{lane}' at step '{step}' must sit between two expression blocks"
  | .pictureTooShort lane step picture span timeStep =>
    s!"no trigger can be generated for picture '{picture}' of lane '{lane}' at step '{step}' "
      ++ "because its exposure is too short (" ++ Number.text span
      ++ " ns) with respect to the time step (" ++ timeStep.text ++ ")"
  | .instruction error => error.message
  | .overflow => Word.overflowMessage

/--
The messages of the errors behind an error, from the outside in.
-/
def causes : LaneError α → List String
  | .stepDuration _ error => [error.message]
  | .evaluation _ _ error => [error.message]
  | .unit _ _ _ error => [error.message]
  | _ => []

/--
Whether a sum or a product did not fit a word, which ends the program.
-/
def isOverflow : LaneError α → Bool
  | .overflow | .instruction .overflow => true
  | _ => false

end LaneError

end Waveplan
