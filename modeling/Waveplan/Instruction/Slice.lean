import Waveplan.Instruction.Join

/-!
This module contains the parts of an instruction between two ticks. Slicing never writes a
repetition out: a repetition becomes a rest of its body, a smaller repetition and the beginning of
its body.
-/

namespace Waveplan.Instruction

variable {α : Type} [Number α]

mutual

/--
The part from tick `start` up to but not including tick `stop`, for `start < stop ≤ length`.
-/
def sub (x : Instruction α) (start stop : Nat) : Instruction α :=
  if start = 0 ∧ stop = x.length then x
  else
    match x with
    | pattern p => pattern (p.slice start stop)
    | ramp r => ramp (r.slice start stop)
    | concatenated xs => join (headType xs) (subParts xs start stop)
    | repeated _ body =>
      let period := body.length
      if start / period = (stop - 1) / period then
        body.sub (start % period) (stop - start / period * period)
      else
        let rest := if start % period = 0 then [] else [body.sub (start % period) period]
        let whole := body.times (stop / period - (start + period - 1) / period)
        let beginning := if stop % period = 0 then [] else [body.sub 0 (stop % period)]
        join body.sampleType (rest ++ whole :: beginning)

/--
The parts of the instructions played one after the other that lie between two ticks.
-/
def subParts (xs : List (Instruction α)) (start stop : Nat) : List (Instruction α) :=
  match xs with
  | [] => []
  | x :: rest =>
    let n := x.length
    let first := if start < n ∧ start < stop then [x.sub start (Nat.min stop n)] else []
    first ++ if n < stop then subParts rest (start - n) (stop - n) else []

end

/--
The tick that the end of a slice means, which may be one past the last tick.
-/
def sliceBound (x : Instruction α) (index : Int) : Except InstructionError Nat := do
  let i ← resolveIndex x.length index
  if i < 0 ∨ (x.length : Int) < i then .error (.sliceOutOfBounds index x.length)
  else .ok i.toNat

/--
The ticks from `start` up to but not including `stop`, negative bounds counting from the end. Only
a step of one is supported.
-/
def sliceBy (x : Instruction α) (start stop step : Int) :
    Except InstructionError (Instruction α) := do
  if step ≠ 1 then
    .error (.unsupportedSliceStep step)
  else
    let first ← x.sliceBound start
    let last ← x.sliceBound stop
    if last ≤ first then .ok (pattern (.empty x.sampleType)) else .ok (x.sub first last)

/--
The ticks from `start` up to but not including `stop`.
-/
def slice (x : Instruction α) (start stop : Int) : Except InstructionError (Instruction α) :=
  x.sliceBy start stop 1

end Waveplan.Instruction
