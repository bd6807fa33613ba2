import Waveplan.Lane.Basic

/-!
This module contains the waveforms of digital lanes. Every block holds one level for the ticks that
it covers; a block that is shorter than a tick may cover none.
-/

namespace Waveplan.DigitalLane

variable {α : Type} [Number α] [Kernel α]

def level (lane : String) (times : StepTimes α) (scope : Namespace α) (start : Nat) :
    DigitalValue → Except (LaneError α) Bool
  | .literal value => .ok value
  | .expression e =>
    match e.evaluate scope with
    | .ok (.bool value) => .ok value
    | .ok other => .error (.notBoolean lane (times.name start) other.text)
    | .error error => .error (.evaluation lane (times.name start) error)

def compile (lane : String) (blocks : List (Block DigitalValue)) (times : StepTimes α)
    (scope : Namespace α) (step : TimeStep) : Except (LaneError α) (Instruction α) := do
  Block.checkSpan lane blocks times.size
  let levels ← (blocks.zip (Block.ranges blocks)).mapM fun (block, start, stop) => do
    let value ← level lane times scope start block.value
    .ok (Instruction.level value (step.ticksBetween (times.bound start) (times.bound stop)))
  joinBlocks .bool levels

end Waveplan.DigitalLane
