import Waveplan.Instruction.Stack
import Waveplan.Shot.Output

/-!
This module contains the instructions of the sequencers of a shot.

Compilation begins with the root, the one sequencer that the computer starts, and reaches the others
through the triggers that channels output. A sequencer cannot trigger itself, not even through
others: while it is compiled, it is no longer among the `pending` sequencers.
-/

namespace Waveplan

namespace ShotContext

variable {α : Type} [Number α] [Kernel α]

/--
The largest shift of channels earlier, and later.
-/
def maxShifts (c : ShotContext α) (step : TimeStep) (channels : List (Channel α)) :
    Except (CompilationError α) (Nat × Nat) :=
  channels.foldlM
    (fun (before, after) channel => do
      let (advance, delay) ← c.shifts step channel.output
      .ok (Nat.max before advance, Nat.max after delay))
    (0, 0)

def channelName (number : Nat) : String := s!"ch {number}"

def channelWaveform (c : ShotContext α) (compile : String → Compilation α (Instruction α))
    (step : TimeStep) (channel : Channel α) (before after : Nat) :
    Compilation α (Instruction α) := do
  let x ← c.output compile step channel.output channel.unit before after
  .ofExcept ((x.asType (.scalar channel.kind)).mapError .instruction)

/--
The named waveforms of channels, which are numbered from `number` on.
-/
def channelWaveforms (c : ShotContext α) (compile : String → Compilation α (Instruction α))
    (name : String) (step : TimeStep) (before after : Nat) (number : Nat) :
    List (Channel α) → Compilation α (List (Instruction α))
  | [] => pure []
  | channel :: rest => do
    let x ← fun progress =>
      (c.channelWaveform compile step channel before after progress).mapError fun error =>
        .channel name number channel.description error
    let y ← Compilation.ofExcept ((x.withName (channelName number)).mapError .instruction)
    let ys ← c.channelWaveforms compile name step before after (number + 1) rest
    pure (y :: ys)

/--
The instruction of a sequencer: its channels side by side.
-/
def channels (c : ShotContext α) (compile : String → Compilation α (Instruction α))
    (name : String) (config : Sequencer α) : Compilation α (Instruction α) := do
  let (before, after) ← Compilation.ofExcept (c.maxShifts config.timeStep config.channels)
  let xs ← c.channelWaveforms compile name config.timeStep before after 0 config.channels
  if xs.isEmpty then
    throw (.noChannels name)
  else
    .ofExcept ((Instruction.stackAll xs).mapError .instruction)

def sequencerNames (devices : Dictionary (Device α)) : List String :=
  (devices.entries.filter fun (_, device) => device.sequencer?.isSome).map Prod.fst

/--
The instruction of a sequencer, which is compiled unless it has been before. Sequencers that are
not pending are being compiled.
-/
def compileSequencer (c : ShotContext α) (pending : List String) (name : String) :
    Compilation α (Instruction α) := do
  match (← get).compiled.get? name with
  | some x => pure x
  | none =>
    match (c.devices.get? name).bind Device.sequencer? with
    | none => throw (.unknownDevice name "sequencer")
    | some config =>
      if h : name ∈ pending then
        have : (pending.erase name).length < pending.length := by
          rw [List.length_erase_of_mem h]
          have := List.length_pos_of_mem h
          omega
        let x ← c.channels (c.compileSequencer (pending.erase name)) name config
        modify fun progress => { progress with compiled := progress.compiled.insert name x }
        pure x
      else
        throw (.triggerCycle name)
termination_by pending.length

/--
The instructions of all sequencers. Every configured sequencer must be reached from the root, and
every lane but those of cameras must be read.
-/
def compileSequencers (c : ShotContext α) (root : String) :
    Except (CompilationError α) (Dictionary (Instruction α)) := do
  let (_, progress) ← (c.compileSequencer (sequencerNames c.devices) root).run {}
  let unreached := (sequencerNames c.devices).filter fun name => !progress.compiled.contains name
  let unused := (c.lanes.entries.filter fun (name, lane) =>
    !lane.isCamera && !progress.usedLanes.contains name).map Prod.fst
  if unreached ≠ [] then .error (.unreachedSequencers root unreached)
  else if unused ≠ [] then .error (.unusedLanes unused)
  else .ok progress.compiled

end ShotContext

def findRoot {α : Type} (devices : Dictionary (Device α)) :
    Except (CompilationError α) String :=
  let roots := (devices.entries.filter fun (_, device) =>
    device.sequencer?.any fun config => config.trigger.isSoftware).map Prod.fst
  match roots with
  | [] => .error .noRootSequencer
  | [root] => .ok root
  | names => .error (.multipleRootSequencers names)

end Waveplan
