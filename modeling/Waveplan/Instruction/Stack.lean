import Waveplan.Instruction.Slice

/-!
This module contains how instructions are put side by side, as channels of one sequencer.

Concatenations are cut where either operand is cut, and repetitions are brought to a common period,
so that both survive. Other shapes are written out.
-/

namespace Waveplan.Instruction

variable {α : Type} [Number α]

/--
The union of two ascending lists of bounds.
-/
def mergeBounds (a b : List Nat) : List Nat :=
  (a.merge b fun x y => x ≤ y).eraseReps

def intervals (bounds : List Nat) : List (Nat × Nat) := bounds.zip (bounds.drop 1)

/--
Both operands written out, side by side.
-/
def stackSamples (a b : Instruction α) : Except InstructionError (Instruction α) :=
  pattern <$> a.toPattern.stack b.toPattern

/--
The channels of two instructions side by side, those of `a` first.

The depth of the recursion is bounded by a budget: below it the operands are written out. Each call
either works on fewer ticks, or turns two repetitions whose common period is the whole length into
operands that are no repetitions. Twice the length is therefore enough to write nothing out that
has a common structure.
-/
def stackWithin (budget : Nat) (a b : Instruction α) :
    Except InstructionError (Instruction α) := do
  if a.length ≠ b.length then
    .error (.lengthMismatch a.length b.length)
  else
    let t ← a.sampleType.merge b.sampleType
    if a.length = 0 then
      .ok (pattern (.empty t))
    else
      match budget with
      | 0 => stackSamples a b
      | budget + 1 =>
        match a, b with
        | concatenated xs, concatenated ys =>
          let cuts := intervals (mergeBounds (bounds xs) (bounds ys))
          join t <$> cuts.mapM fun (i, j) => stackWithin budget (a.sub i j) (b.sub i j)
        | concatenated xs, _ =>
          join t <$> (xs.zip (intervals (bounds xs))).mapM fun (x, i, j) =>
            stackWithin budget x (b.sub i j)
        | _, concatenated ys =>
          join t <$> (ys.zip (intervals (bounds ys))).mapM fun (y, i, j) =>
            stackWithin budget (a.sub i j) y
        | repeated _ x, repeated _ y =>
          let period := x.length.lcm y.length
          if period = a.length then
            (·.times (a.length / period)) <$>
              stackWithin budget (x.tile (period / x.length)) (y.tile (period / y.length))
          else
            (·.times (a.length / period)) <$>
              stackWithin budget (x.times (period / x.length)) (y.times (period / y.length))
        | _, _ => stackSamples a b

/--
The channels of two instructions of equal length side by side, those of `a` first.
-/
def stack (a b : Instruction α) : Except InstructionError (Instruction α) :=
  stackWithin (2 * a.length + 1) a b

/--
The channels of any number of instructions side by side, in order. The two halves are stacked
first, so that trees stay shallow when there are many channels.
-/
def stackAll (xs : List (Instruction α)) : Except InstructionError (Instruction α) :=
  go xs.length xs
where
  /-- Halving a list of at most `fuel` instructions comes to an end within `fuel` steps. -/
  go (fuel : Nat) (xs : List (Instruction α)) : Except InstructionError (Instruction α) := do
    match fuel, xs with
    | _, [] => .error .noInstructions
    | _, [x] => .ok x
    | 0, x :: _ => .ok x
    | fuel + 1, xs =>
      let half := xs.length / 2
      let left ← go fuel (xs.take half)
      let right ← go fuel (xs.drop half)
      stack left right

end Waveplan.Instruction
