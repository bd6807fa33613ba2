import Waveplan.Clock
import Waveplan.Device.Basic
import Waveplan.Instruction.Slice
import Waveplan.Lane.Analog
import Waveplan.Lane.Camera
import Waveplan.Lane.Digital

/-!
This module contains the waveforms of channel outputs.

An output that is shifted needs ticks before and after the shot. How many is found first, by
`ChannelOutput.shifts`, so that all channels of a sequencer have the same length; evaluation then
moves ticks from one side to the other.
-/

namespace Waveplan

structure ShotContext (α : Type) where
  lanes : Dictionary Lane
  devices : Dictionary (Device α)
  times : StepTimes α
  scope : Namespace α

structure Progress (α : Type) where
  /-- The instructions of sequencers, so that each is compiled once. -/
  compiled : Dictionary (Instruction α) := .empty
  /-- The lanes that have been read. -/
  usedLanes : Dictionary Unit := .empty

abbrev Compilation (α β : Type) := StateT (Progress α) (Except (CompilationError α)) β

/--
A result that needs no progress, as a step of a compilation.
-/
def Compilation.ofExcept {α β : Type} (result : Except (CompilationError α) β) :
    Compilation α β := fun progress => result.map (·, progress)

namespace ShotContext

variable {α : Type} [Number α] [Kernel α]

def ticks (c : ShotContext α) (step : TimeStep) : Nat :=
  step.ticksBetween Number.zero c.times.duration

def evaluate (c : ShotContext α) (e : Expression) (unit : Option PhysicalUnit) :
    Except (CompilationError α) (Scalar α) :=
  (e.evaluateIn c.scope unit).mapError fun error => .evaluation e.body error

def shiftTicks (c : ShotContext α) (shift : Expression) (step : TimeStep) :
    Except (CompilationError α) Nat := do
  let duration ← c.evaluate shift (some .nanosecond)
  let ticks := step.ticksIn duration.toFloat
  if ticks < 0 then .error (.negativeShift ticks) else .ok ticks.toNat

/--
Takes the ticks of a shift from one side of an output and adds them to the other one.
-/
def moveTicks (c : ShotContext α) (step : TimeStep) (shift : Expression) (source target : Nat)
    (tooLarge : Nat → Nat → CompilationError α) : Except (CompilationError α) (Nat × Nat) := do
  let ticks ← c.shiftTicks shift step
  if source < ticks then
    .error (tooLarge ticks source)
  else
    let target ← Word.checked (target + ticks)
    .ok (source - ticks, target)

/--
The ticks by which an output is shifted earlier, and later.
-/
def shifts (c : ShotContext α) (step : TimeStep) :
    ChannelOutput α → Except (CompilationError α) (Nat × Nat)
  | .constant _ | .laneValues _ _ | .deviceTrigger _ _ => .ok (0, 0)
  | .calibrated input _ _ _ => c.shifts step input
  | .advance input shift => do
    let (advance, delay) ← c.shifts step input
    let ticks ← c.shiftTicks shift step
    let advance ← Word.checked (advance + ticks)
    .ok (advance, delay)
  | .delay input shift => do
    let (advance, delay) ← c.shifts step input
    let ticks ← c.shiftTicks shift step
    let delay ← Word.checked (delay + ticks)
    .ok (advance, delay)

/--
A value held for the whole shot, and for `before` and `after` more ticks.
-/
def constant (c : ShotContext α) (value : Expression) (step : TimeStep)
    (unit : Option PhysicalUnit) (before after : Nat) :
    Except (CompilationError α) (Instruction α) := do
  let extra ← Word.checked (before + after)
  let length ← Word.checked (c.ticks step + extra)
  let scalar ← c.evaluate value unit
  .ok (.hold scalar length)

/--
A waveform extended by copies of its first and last samples.
-/
def padWithEdges (x : Instruction α) (before after : Nat) :
    Except InstructionError (Instruction α) := do
  if before = 0 ∧ after = 0 then
    .ok x
  else
    let edge (index : Int) (count : Nat) : Except InstructionError (Instruction α) := do
      let sample ← x.get index
      let p ← Pattern.constant x.sampleType sample 1
      .ok ((Instruction.pattern p).times count)
    let first ← edge 0 before
    let last ← edge (-1) after
    Instruction.play [first, x, last]

def laneWaveform (c : ShotContext α) (name : String) (lane : Lane) (step : TimeStep)
    (unit : Option PhysicalUnit) : Except (CompilationError α) (Instruction α) :=
  match lane with
  | .digital blocks =>
    match unit with
    | some unit => .error (.digitalLaneWithUnit name unit)
    | none => (DigitalLane.compile name blocks c.times c.scope step).mapError .lane
  | .analog blocks =>
    (AnalogLane.compile name blocks c.times unit c.scope step).mapError .lane
  | .camera _ => .error (.unsupportedLane name lane.kind)

/--
The waveform that triggers a camera: high during its pictures, and low if it takes none.
-/
def cameraTrigger (c : ShotContext α) (camera : String) (step : TimeStep) :
    Except (CompilationError α) (Instruction α) :=
  match c.lanes.get? camera with
  | some (.camera blocks) => (CameraLane.trigger camera blocks c.times step).mapError .lane
  | some lane => .error (.notACameraLane camera lane.kind)
  | none => .ok (.level false (c.ticks step))

def sequencerTrigger (c : ShotContext α) (name : String) (config : Sequencer α)
    (slave : Instruction α) (step : TimeStep) : Except (CompilationError α) (Instruction α) := do
  let length := c.ticks step
  match config.trigger with
  | .externalClockOnChange _ =>
    let pulse ← Clock.pulse config.timeStep step
    let clock ← Clock.follow pulse slave
    if length < clock.length then
      (clock.slice 0 (Word.toSigned length)).mapError .instruction
    else
      .ok clock
  | .externalStart _ => Clock.halfPulse name length
  | trigger => .error (.unsupportedTrigger name trigger)

/--
A calibration whose outputs are expressed in the unit of a channel.
-/
def calibrationIn (points : List (α × α)) (source target : Option PhysicalUnit) :
    Except (CompilationError α) (Calibration α) := do
  let calibration ← (Calibration.ofPoints points).mapError .calibration
  if source = target then
    .ok calibration
  else
    match source, target with
    | some u, some v =>
      match convertMagnitude Number.one u v with
      | .ok factor => .ok (calibration.mapOutputs (· * factor))
      | .error _ => .error (.calibrationUnits source target)
    | _, _ => .error (.calibrationUnits source target)

/--
A waveform under a calibration.
-/
def calibrated (calibration : Calibration α) (x : Instruction α) :
    Except (CompilationError α) (Instruction α) := do
  let y ← (calibration.apply x).mapError .calibration
  y.fit.mapError .instruction

/--
The waveform that triggers a device. `compile` gives the instruction of a sequencer.
-/
def deviceTrigger (c : ShotContext α) (compile : String → Compilation α (Instruction α))
    (device : String) (step : TimeStep) : Compilation α (Instruction α) :=
  match c.devices.get? device with
  | some (.sequencer config) => do
    let slave ← compile device
    .ofExcept (c.sequencerTrigger device config slave step)
  | some .camera => .ofExcept (c.cameraTrigger device step)
  | some .other | none => .ofExcept (Clock.halfPulse device (c.ticks step))

/--
The waveform of an output, with `before` ticks before the shot and `after` ticks after it.
-/
def output (c : ShotContext α) (compile : String → Compilation α (Instruction α))
    (step : TimeStep) (o : ChannelOutput α) (unit : Option PhysicalUnit) (before after : Nat) :
    Compilation α (Instruction α) :=
  match o with
  | .constant value => .ofExcept (c.constant value step unit before after)
  | .laneValues name default =>
    match c.lanes.get? name, default with
    | some lane, _ => do
      let x ← Compilation.ofExcept (c.laneWaveform name lane step unit)
      modify fun progress => { progress with usedLanes := progress.usedLanes.insert name () }
      .ofExcept ((padWithEdges x before after).mapError .instruction)
    | none, some value => .ofExcept (c.constant value step unit before after)
    | none, none => throw (.missingLane name o.text)
  | .deviceTrigger device default =>
    if c.devices.contains device then
      match unit with
      | some unit => throw (.triggerWithUnit device unit)
      | none => do
        let trigger ← c.deviceTrigger compile device step
        .ofExcept (Clock.play [.level false before, trigger, .level false after])
    else
      match default with
      | some other => c.output compile step other unit before after
      | none => throw (.unknownDevice device o.text)
  | .calibrated input inputUnit outputUnit points => do
    let x ← c.output compile step input inputUnit before after
    let calibration ← Compilation.ofExcept (calibrationIn points outputUnit unit)
    .ofExcept (calibrated calibration x)
  | .advance input shift => do
    let moved ← Compilation.ofExcept (c.moveTicks step shift before after .advanceTooLarge)
    c.output compile step input unit moved.1 moved.2
  | .delay input shift => do
    let moved ← Compilation.ofExcept (c.moveTicks step shift after before .delayTooLarge)
    c.output compile step input unit moved.2 moved.1

end ShotContext

end Waveplan
