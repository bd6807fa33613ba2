import Waveplan.Lane.Basic

/-!
This module contains the waveforms of analog lanes. An expression is held for the ticks of its
block, or evaluated at every tick if it reads the time since the beginning of the block. A ramp is a
line between its neighbours.
-/

namespace Waveplan.AnalogLane

variable {α : Type} [Number α] [Kernel α]

/--
What the blocks of one analog lane are compiled with.
-/
structure Context (α : Type) where
  lane : String
  times : StepTimes α
  scope : Namespace α
  /-- The unit of the values, if the channel has one. -/
  unit : Option PhysicalUnit
  timeStep : TimeStep

namespace Context

/--
A value of the lane as a float in a unit. Booleans are no values of analog lanes.
-/
def magnitude (c : Context α) (unit : Option PhysicalUnit) (start : Nat) (value : Value α) :
    Except (LaneError α) α :=
  if value.isBool then .error (.notAnalog c.lane (c.times.name start) value.text)
  else
    match value.inUnit unit with
    | .ok scalar => .ok scalar.toFloat
    | .error error => .error (.unit c.lane (c.times.name start) unit error)

/--
The value of an expression at a time since the beginning of its block.
-/
def valueAt (c : Context α) (start : Nat) (e : CompiledExpression α) (time : α) :
    Except (LaneError α) (Value α) :=
  (e.evaluateWith c.scope [(VariableName.time, .seconds time)]).mapError fun error =>
    .evaluation c.lane (c.times.name start) error

def compileExpression (c : Context α) (start : Nat) (e : Expression) :
    Except (LaneError α) (CompiledExpression α) :=
  e.compile.mapError fun error => .evaluation c.lane (c.times.name start) error

/--
The waveform of an expression over the steps from `start` up to but not including `stop`.
-/
def expression (c : Context α) (start stop : Nat) (e : Expression) :
    Except (LaneError α) (Instruction α) := do
  let t₀ := c.times.bound start
  let t₁ := c.times.bound stop
  let compiled ← c.compileExpression start e
  if e.isTimeDependent then
    let times ← c.timeStep.tickTimes t₀ t₁
    let values ← times.mapM fun time => do
      let value ← c.valueAt start compiled time
      c.magnitude c.unit start value
    .ok (.pattern (.ofFloats values))
  else
    let value ← (compiled.evaluate c.scope).mapError fun error =>
      .evaluation c.lane (c.times.name start) error
    let x ← c.magnitude c.unit start value
    .ok (.hold (.float x) (c.timeStep.ticksBetween t₀ t₁))

/--
The value of an expression at a time, in a unit.
-/
def edge (c : Context α) (start : Nat) (e : Expression) (time : α) (unit : Option PhysicalUnit) :
    Except (LaneError α) α := do
  let compiled ← c.compileExpression start e
  let value ← c.valueAt start compiled time
  c.magnitude unit start value

/--
The value at a time of the line from `v₀` at `t₀` to `v₁` at `t₁`.
-/
def line (t₀ t₁ v₀ v₁ t : α) : α := (t - t₀) / (t₁ - t₀) * (v₁ - v₀) + v₀

/--
Express a value in base units in the unit of the channel.
-/
def fromBase (c : Context α) (start : Nat) (x : α) : Except (LaneError α) α :=
  match c.unit with
  | none => .ok x
  | some unit =>
    (convertMagnitude x unit.base unit).mapError fun error =>
      .unit c.lane (c.times.name start) c.unit error

/--
The value at a tick of the line from `v₀` at `t₀` to `v₁` at `t₁`, given in base units.
-/
def lineAt (c : Context α) (start : Nat) (t₀ t₁ v₀ v₁ : α) (tick : Nat) :
    Except (LaneError α) α := do
  let time ← c.timeStep.timeOf tick
  c.fromBase start (line t₀ t₁ v₀ v₁ time)

/--
The waveform of a ramp between two expressions. The line is drawn in base units.
-/
def ramp (c : Context α) (previousStart start stop : Nat) (previous next : Expression) :
    Except (LaneError α) (Instruction α) := do
  let base := c.unit.map PhysicalUnit.base
  let duration := c.times.bound start - c.times.bound previousStart
  let v₀ ← c.edge previousStart previous duration base
  let v₁ ← c.edge stop next Number.zero base
  let t₀ := c.times.bound start
  let t₁ := c.times.bound stop
  let first := c.timeStep.tickAt t₀
  let last := c.timeStep.tickAt t₁
  if last ≤ first then
    .ok (.pattern (.empty .float))
  else
    let x ← c.lineAt start t₀ t₁ v₀ v₁ first
    let y ← c.lineAt start t₀ t₁ v₀ v₁ last
    .ok (.linear x y (last - first))

/--
The waveforms of consecutive blocks, a ramp being drawn between its two neighbours.
-/
def blocks (c : Context α) (previous : Option (AnalogValue × Nat)) :
    List (AnalogValue × Nat × Nat) → Except (LaneError α) (List (Instruction α))
  | [] => .ok []
  | (value, start, stop) :: rest => do
    let x ← match value with
      | .expression e => c.expression start stop e
      | .ramp =>
        match previous, rest.head? with
        | some (.expression before, previousStart), some (.expression after, _) =>
          c.ramp previousStart start stop before after
        | _, _ => .error (.rampWithoutNeighbours c.lane (c.times.name start))
    let xs ← c.blocks (some (value, start)) rest
    .ok (x :: xs)

end Context

def compile (lane : String) (blocks : List (Block AnalogValue)) (times : StepTimes α)
    (unit : Option PhysicalUnit) (scope : Namespace α) (step : TimeStep) :
    Except (LaneError α) (Instruction α) := do
  Block.checkSpan lane blocks times.size
  let xs ← Context.blocks ⟨lane, times, scope, unit, step⟩ none
    ((blocks.map Block.value).zip (Block.ranges blocks))
  joinBlocks .float xs

end Waveplan.AnalogLane
