import Waveplan.Number

/-!
This module contains the ticks of a sequencer. A time and the tick it falls on are related by one
rounding, `tickAt`, so that the ticks of consecutive intervals always add up.
-/

namespace Waveplan

/--
The period of the ticks of a sequencer, in nanoseconds, as a machine word.
-/
structure TimeStep where
  ns : UInt64
  ns_ne_zero : ns ≠ 0
  deriving DecidableEq, Repr

namespace TimeStep

def ofNs? (ns : UInt64) : Option TimeStep :=
  if h : ns ≠ 0 then some ⟨ns, h⟩ else none

theorem ns_pos (step : TimeStep) : 0 < step.ns.toNat :=
  Nat.pos_of_ne_zero fun h => step.ns_ne_zero (UInt64.toNat_inj.mp h)

/--
Why zero is not a time step.
-/
def zeroMessage : String := "time step must be at least 1 ns"

def text (step : TimeStep) : String := s!"{step.ns.toNat} ns"

variable {α : Type} [Number α]

def nanosecond : α := Number.ofDecimal 1 (-9)

def seconds (step : TimeStep) : α := Number.ofNat step.ns.toNat * nanosecond

/--
A duration in nanoseconds as the nearest whole number of ticks.
-/
def ticksIn (step : TimeStep) (duration : α) : Int :=
  Word.nearestSigned (Number.roundTick (duration / Number.ofNat step.ns.toNat))

/--
The first tick that is not before a time in seconds. What is after the last tick that a word can
count falls on that one.
-/
def tickAt (step : TimeStep) (time : α) : Nat :=
  Word.nearest (Number.ceilTick (time / step.seconds))

/--
How many ticks lie in the interval from `start` up to but not including `stop`.
-/
def ticksBetween (step : TimeStep) (start stop : α) : Nat := step.tickAt stop - step.tickAt start

/--
The time of a tick in seconds. Its nanoseconds are counted in a machine word.
-/
def timeOf {ε : Type} [HasOverflow ε] (step : TimeStep) (tick : Nat) : Except ε α := do
  let ns ← Word.checked (tick * step.ns.toNat)
  .ok (Number.ofNat ns * nanosecond)

/--
The times of the ticks between two times, counted from `start`.
-/
def tickTimes {ε : Type} [HasOverflow ε] (step : TimeStep) (start stop : α) :
    Except ε (List α) :=
  (List.range' (step.tickAt start) (step.ticksBetween start stop)).mapM fun tick => do
    let time ← step.timeOf tick
    .ok (time - start)

theorem tickAt_le (step : TimeStep) (time : α) : step.tickAt time ≤ wordModulus - 1 :=
  Nat.min_le_right _ _

theorem ticksBetween_lt (step : TimeStep) (start stop : α) :
    step.ticksBetween start stop < wordModulus :=
  Nat.lt_of_le_of_lt (Nat.sub_le _ _) (Word.nearest_lt _)

theorem ticksBetween_add {a b c : α} (step : TimeStep) (hab : step.tickAt a ≤ step.tickAt b)
    (hbc : step.tickAt b ≤ step.tickAt c) :
    step.ticksBetween a b + step.ticksBetween b c = step.ticksBetween a c := by
  simp only [ticksBetween]
  omega

end TimeStep

/--
The times at which consecutive steps begin, from `elapsed` on, and the end of the last one.
-/
def stepBoundsFrom {α : Type} [Number α] (elapsed : α) : List α → List α
  | [] => [elapsed]
  | d :: durations => elapsed :: stepBoundsFrom (elapsed + d) durations

/--
The times at which consecutive steps begin, and the end of the last one.
-/
def stepBounds {α : Type} [Number α] (durations : List α) : List α :=
  stepBoundsFrom Number.zero durations

end Waveplan
