import Waveplan.Calibration
import Waveplan.Device.Trigger
import Waveplan.Lane.Error

/-!
This module contains the reasons why the parameters of a shot cannot be compiled.
-/

namespace Waveplan

inductive CompilationError (α : Type) where
  | noRootSequencer
  | multipleRootSequencers (names : List String)
  /-- No chain of triggers leads from the root to these sequencers. -/
  | unreachedSequencers (root : String) (names : List String)
  | unusedLanes (names : List String)
  | triggerCycle (device : String)
  | noChannels (sequencer : String)
  | channel (sequencer : String) (number : Nat) (description : String)
    (error : CompilationError α)
  | missingLane (lane output : String)
  | unsupportedLane (lane kind : String)
  | digitalLaneWithUnit (lane : String) (unit : PhysicalUnit)
  | unknownDevice (device output : String)
  | triggerWithUnit (device : String) (unit : PhysicalUnit)
  | notACameraLane (device kind : String)
  | negativeShift (ticks : Int)
  | advanceTooLarge (ticks available : Nat)
  | delayTooLarge (ticks available : Nat)
  | triggerTooShort (device : String)
  | unsupportedTrigger (device : String) (trigger : Trigger)
  | clockTooFast (slave master : TimeStep)
  | clockNotMultiple (slave master : TimeStep)
  | unsupportedRepetition (length : Nat)
  | rampClockTarget
  | calibrationUnits (source target : Option PhysicalUnit)
  | evaluation (expression : String) (error : EvaluationError)
  | lane (error : LaneError α)
  | instruction (error : InstructionError)
  | calibration (error : CalibrationError α)
  | overflow
  deriving Repr

instance {α : Type} : HasOverflow (CompilationError α) := ⟨.overflow⟩

namespace CompilationError

variable {α : Type} [Number α]

def message : CompilationError α → String
  | .noRootSequencer =>
    "no root sequencer found, exactly one sequencer must be software triggered"
  | .multipleRootSequencers names =>
    "more than one root sequencer found: " ++ Text.quotedList names
  | .unreachedSequencers root names =>
    s!"there is no trigger relationship from the root sequencer '{root}' to the following "
      ++ "sequencers: " ++ Text.quotedList names
  | .unusedLanes names =>
    "the following lanes were not used when compiling the shot: " ++ Text.quotedList names
  | .triggerCycle device => s!"sequencer '{device}' is part of a trigger cycle"
  | .noChannels sequencer => s!"sequencer '{sequencer}' has no channel"
  | .channel sequencer number description _ =>
    s!"error when evaluating output for channel {number} ({description}) "
      ++ s!"of sequencer '{sequencer}'"
  | .missingLane name output =>
    s!"could not find lane '{name}' when evaluating output <{output}>"
  | .unsupportedLane name kind =>
    s!"lane '{name}' is a {kind} lane and cannot be output on a channel"
  | .digitalLaneWithUnit name unit =>
    s!"cannot evaluate digital lane '{name}' in " ++ unit.symbol
  | .unknownDevice device output =>
    s!"could not find device '{device}' to generate trigger for output <{output}>"
  | .triggerWithUnit device unit =>
    s!"cannot evaluate trigger for device '{device}' in " ++ unit.symbol
  | .notACameraLane device kind =>
    s!"the lane named after camera '{device}' is a {kind} lane, not a camera lane"
  | .negativeShift ticks =>
    s!"cannot shift an output by a negative number of time steps ({ticks})"
  | .advanceTooLarge ticks available =>
    s!"cannot advance by {ticks} time steps when only {available} are available"
  | .delayTooLarge ticks available =>
    s!"cannot delay by {ticks} time steps when only {available} are available"
  | .triggerTooShort device =>
    s!"the shot duration is too short to generate a trigger pulse for device '{device}'"
  | .unsupportedTrigger device trigger =>
    s!"cannot generate a trigger for device '{device}' configured with a " ++ trigger.text
      ++ " trigger"
  | .clockTooFast slave master =>
    "slave time step (" ++ slave.text ++ ") must be at least twice the master time step ("
      ++ master.text ++ ")"
  | .clockNotMultiple slave master =>
    "slave time step (" ++ slave.text
      ++ ") must be an integer multiple of the master time step (" ++ master.text ++ ")"
  | .unsupportedRepetition length =>
    s!"adaptive clocks only support repetitions of a single tick, got a block of {length} ticks"
  | .rampClockTarget => "adaptive clocks cannot follow a ramp"
  | .calibrationUnits source target =>
    "cannot convert calibrated values from " ++ PhysicalUnit.describe? source ++ " to "
      ++ PhysicalUnit.describe? target
  | .evaluation expression _ => s!"could not evaluate <{expression}>"
  | .lane error => error.message
  | .instruction error => error.message
  | .calibration error => error.message
  | .overflow => Word.overflowMessage

/--
The messages of the errors behind an error, from the outside in.
-/
def causes : CompilationError α → List String
  | .channel _ _ _ error => error.message :: error.causes
  | .evaluation _ error => [error.message]
  | .lane error => error.causes
  | _ => []

/--
Whether a sum or a product did not fit a word, which ends the program.
-/
def isOverflow : CompilationError α → Bool
  | .overflow | .instruction .overflow | .calibration (.instruction .overflow) => true
  | .lane error => error.isOverflow
  | .channel _ _ _ error => error.isOverflow
  | _ => false

end CompilationError

end Waveplan
