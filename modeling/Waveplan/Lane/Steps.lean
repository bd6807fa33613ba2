import Waveplan.Expression.Basic
import Waveplan.Lane.Error

/-!
This module contains the steps of a shot and the times at which they begin and end.
-/

namespace Waveplan

structure Step where
  name : String
  duration : Expression
  deriving DecidableEq, Repr

/--
The durations of steps in seconds, and the times between them.
-/
structure StepTimes (α : Type) where
  names : List String
  durations : List α
  /-- The beginnings of the steps and the end of the last one. -/
  bounds : List α
  deriving Repr

namespace StepTimes

variable {α : Type}

def size (t : StepTimes α) : Nat := t.durations.length

/--
The name of a step, and a name for the end of the shot.
-/
def name (t : StepTimes α) (step : Nat) : String := t.names.getD step "<end>"

variable [Number α]

def ofDurations (names : List String) (durations : List α) : StepTimes α :=
  ⟨names, durations, stepBounds durations⟩

def bound (t : StepTimes α) (step : Nat) : α := t.bounds.getD step Number.zero

def duration (t : StepTimes α) : α := t.bounds.getLastD Number.zero

end StepTimes

variable {α : Type} [Number α] [Kernel α]

def Step.seconds (step : Step) (scope : Namespace α) : Except (LaneError α) α :=
  match step.duration.evaluateIn scope (some .second) with
  | .error error => .error (.stepDuration step.name error)
  | .ok scalar =>
    let duration := scalar.toFloat
    if Number.lt duration Number.zero then .error (.negativeDuration step.name duration)
    else .ok duration

def StepTimes.evaluate (steps : List Step) (scope : Namespace α) :
    Except (LaneError α) (StepTimes α) := do
  let durations ← steps.mapM fun step => step.seconds scope
  .ok (.ofDurations (steps.map Step.name) durations)

end Waveplan
