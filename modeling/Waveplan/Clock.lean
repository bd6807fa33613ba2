import Waveplan.Shot.Error

/-!
This module contains the waveforms with which a sequencer starts or clocks other devices.
-/

namespace Waveplan.Clock

variable {α : Type} [Number α]

/--
The ticks of the master in one tick of the slave, and how many of them are high and low. The time
step of the slave must be a multiple, at least twofold, of the one of the master.
-/
def highLowClicks (slave master : TimeStep) : Except (CompilationError α) (Nat × Nat × Nat) := do
  let shortest ← Word.checked (2 * master.ns.toNat)
  if slave.ns.toNat < shortest then .error (.clockTooFast slave master)
  else if slave.ns % master.ns ≠ 0 then .error (.clockNotMultiple slave master)
  else
    let period := (slave.ns / master.ns).toNat
    let high := (period + 1) / 2
    .ok (period, high, period - high)

def play (xs : List (Instruction α)) : Except (CompilationError α) (Instruction α) :=
  (Instruction.play xs).mapError .instruction

/--
One tick of the slave: high, then low, in ticks of the master.
-/
def pulse (slave master : TimeStep) : Except (CompilationError α) (Instruction α) := do
  let (_, high, low) ← highLowClicks slave master
  play [.level true high, .level false low]

/--
High for the first half of some ticks, and low for the rest.
-/
def halfPulse (device : String) (length : Nat) : Except (CompilationError α) (Instruction α) :=
  let high := length / 2
  let low := length - high
  if high = 0 ∨ low = 0 then .error (.triggerTooShort device)
  else play [.level true high, .level false low]

mutual

/--
A clock that pulses only when the target may change. Every tick of a pattern gets a pulse; a
repetition of a single tick only gets one, since the target holds its output in between.
-/
def adaptive (pulse : Instruction α) (target : Instruction α) :
    Except (CompilationError α) (Instruction α) :=
  match target with
  | .pattern p => .ok (pulse.times p.length)
  | .ramp _ => .error .rampClockTarget
  | .concatenated xs => do
    let ys ← adaptiveAll pulse xs
    play ys
  | .repeated n body =>
    if body.length = 1 then do
      let idle ← Word.checked ((n - 1) * pulse.length)
      play [pulse, .level false idle]
    else
      .error (.unsupportedRepetition body.length)

def adaptiveAll (pulse : Instruction α) (targets : List (Instruction α)) :
    Except (CompilationError α) (List (Instruction α)) :=
  match targets with
  | [] => .ok []
  | x :: rest => do
    let y ← adaptive pulse x
    let ys ← adaptiveAll pulse rest
    .ok (y :: ys)

end

/--
The clock that follows a target. Its ticks are counted in a machine word.
-/
def follow (pulse target : Instruction α) : Except (CompilationError α) (Instruction α) := do
  let clock ← adaptive pulse target
  clock.fit.mapError .instruction

end Waveplan.Clock
