import Waveplan.Instruction.Join
import Waveplan.Lane.Steps

/-!
This module contains lanes: tracks of values along the steps of a shot. A lane has one value per
step, and equal neighbours are held together in blocks.
-/

namespace Waveplan

/--
One value held over `span` consecutive steps.
-/
structure Block (β : Type) where
  value : β
  /-- The number of steps, as a machine word. -/
  span : UInt64
  deriving DecidableEq, Repr

namespace Block

variable {β : Type}

def totalSpan : List (Block β) → Nat
  | [] => 0
  | b :: rest => b.span.toNat + totalSpan rest

/--
The steps that blocks cover, from the step `start` on: the first step of each block and the first
one after it.
-/
def rangesFrom (start : Nat) : List (Block β) → List (Nat × Nat)
  | [] => []
  | b :: rest => (start, start + b.span.toNat) :: rangesFrom (start + b.span.toNat) rest

def ranges (blocks : List (Block β)) : List (Nat × Nat) := rangesFrom 0 blocks

/--
Blocks must cover at least one step each, and together all steps of the shot.
-/
def checkSpan {α : Type} (lane : String) (blocks : List (Block β)) (steps : Nat) :
    Except (LaneError α) Unit := do
  if blocks.any (·.span = 0) then
    .error (.emptyBlock lane)
  else
    let span ← Word.checked (totalSpan blocks)
    if span = steps then .ok () else .error (.spanMismatch lane steps span)

end Block

/--
The instructions of the blocks of a lane, one after the other. A lane without blocks is empty.
-/
def joinBlocks {α : Type} [Number α] (t : SampleType) (xs : List (Instruction α)) :
    Except (LaneError α) (Instruction α) :=
  if xs.isEmpty then .ok (.pattern (.empty t))
  else (Instruction.play xs).mapError .instruction

inductive DigitalValue where
  | literal (value : Bool)
  | expression (e : Expression)
  deriving DecidableEq, Repr

inductive AnalogValue where
  | expression (e : Expression)
  /-- A line from the end of the previous block to the beginning of the next one. -/
  | ramp
  deriving DecidableEq, Repr

def rampKeyword : String := "ramp"

namespace AnalogValue

def ofExpression (e : Expression) : AnalogValue :=
  if Text.trim e.body.toList = rampKeyword.toList then .ramp else .expression e

def toExpression : AnalogValue → Expression
  | .expression e => e
  | .ramp => ⟨rampKeyword⟩

end AnalogValue

structure Picture where
  name : String
  deriving DecidableEq, Repr

inductive Lane where
  | digital (blocks : List (Block DigitalValue))
  | analog (blocks : List (Block AnalogValue))
  /-- A camera is idle where there is no picture. -/
  | camera (blocks : List (Block (Option Picture)))
  deriving DecidableEq, Repr

namespace Lane

def totalSpan : Lane → Nat
  | .digital blocks => Block.totalSpan blocks
  | .analog blocks => Block.totalSpan blocks
  | .camera blocks => Block.totalSpan blocks

/--
The number of steps of a lane, which must fit a machine word.
-/
def span {ε : Type} [HasOverflow ε] (lane : Lane) : Except ε Nat := Word.checked lane.totalSpan

def kind : Lane → String
  | .digital _ => "digital"
  | .analog _ => "analog"
  | .camera _ => "camera"

def isCamera : Lane → Bool
  | .camera _ => true
  | _ => false

def validate {α : Type} (lane : Lane) (name : String) (steps : Nat) : Except (LaneError α) Unit :=
  match lane with
  | .digital blocks => Block.checkSpan name blocks steps
  | .analog blocks => Block.checkSpan name blocks steps
  | .camera blocks => Block.checkSpan name blocks steps

end Lane

end Waveplan
