import Waveplan.Lane.Basic

/-!
This module contains what is derived from the lane of a camera: the trigger that is high during
pictures, the exposures of the pictures and their names.
-/

namespace Waveplan.CameraLane

variable {α : Type} [Number α]

/--
The waveform that is high during pictures. Every picture must cover a tick.
-/
def trigger (lane : String) (blocks : List (Block (Option Picture))) (times : StepTimes α)
    (step : TimeStep) : Except (LaneError α) (Instruction α) := do
  Block.checkSpan lane blocks times.size
  let levels ← (blocks.zip (Block.ranges blocks)).mapM fun (block, start, stop) =>
    let t₀ := times.bound start
    let t₁ := times.bound stop
    match block.value, step.ticksBetween t₀ t₁ with
    | some picture, 0 =>
      .error (.pictureTooShort lane (times.name start) picture.name
        ((t₁ - t₀) * Number.ofDecimal 1 9) step)
    | some _, n => .ok (Instruction.level true n)
    | none, n => .ok (Instruction.level false n)
  joinBlocks .bool levels

/--
The sum of durations. It begins with minus zero, to which adding any number changes nothing.
-/
def sum (durations : List α) : α := durations.foldl (· + ·) (-Number.zero)

def exposures (blocks : List (Block (Option Picture))) (times : StepTimes α) : List α :=
  (blocks.zip (Block.ranges blocks)).filterMap fun (block, start, stop) =>
    block.value.map fun _ => sum ((times.durations.take stop).drop start)

def pictureNames (blocks : List (Block (Option Picture))) : List String :=
  blocks.filterMap fun block => block.value.map Picture.name

end Waveplan.CameraLane
