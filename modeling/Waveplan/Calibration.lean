import Waveplan.Instruction.Channel

/-!
This module contains piecewise linear calibrations: measured points, the interpolation between them,
and its application to instructions.

Repetitions stay repetitions, and a ramp is cut where its values cross a measured input, so that
each piece is a ramp again.
-/

namespace Waveplan

inductive CalibrationError (α : Type) where
  | tooFewPoints (count : Nat)
  | notFinite (x y : α)
  | nonFiniteInput (value : α)
  | instruction (error : InstructionError)
  deriving Repr

def CalibrationError.message {α : Type} [Number α] : CalibrationError α → String
  | .tooFewPoints count => s!"a calibration needs at least 2 points, got {count}"
  | .notFinite x y =>
    "calibration point (" ++ Number.text x ++ ", " ++ Number.text y ++ ") is not finite"
  | .nonFiniteInput value => "cannot calibrate the non-finite value " ++ Number.text value
  | .instruction error => error.message

/--
Measured points of an input and an output, in ascending order of the inputs. Points with one input
keep the order in which they were measured.
-/
structure Calibration (α : Type) where
  points : List (α × α)
  deriving BEq, Repr

namespace Calibration

variable {α : Type} [Number α]

def ofPoints (points : List (α × α)) : Except (CalibrationError α) (Calibration α) :=
  if points.length < 2 then .error (.tooFewPoints points.length)
  else
    match points.find? fun (x, y) => !Number.isFinite x || !Number.isFinite y with
    | some (x, y) => .error (.notFinite x y)
    | none => .ok ⟨points.mergeSort fun p q => Number.totalLe p.1 q.1⟩

def inputs (c : Calibration α) : List α := c.points.map Prod.fst

def outputs (c : Calibration α) : List α := c.points.map Prod.snd

def mapOutputs (c : Calibration α) (f : α → α) : Calibration α :=
  ⟨c.points.map fun (x, y) => (x, f y)⟩

/--
The value at `x` on the line through two points.
-/
def lineThrough (p q : α × α) (x : α) : α :=
  if q.1 == p.1 then q.2 else p.2 + (x - p.1) * (q.2 - p.2) / (q.1 - p.1)

/--
The value at `x` between the last point that is not after it and the next one.
-/
def interpolateFrom (p : α × α) (points : List (α × α)) (x : α) : α :=
  match points with
  | [] => p.2
  | [q] => lineThrough p q x
  | q :: r :: rest => if Number.le q.1 x then interpolateFrom q (r :: rest) x else lineThrough p q x

/--
The output at an input: on the line between the two nearest points, and outside of the measured
range the output of the extreme point.
-/
def interpolate (c : Calibration α) (x : α) : α :=
  match c.points with
  | [] => Number.zero
  | p :: rest =>
    let last := rest.getLastD p
    if Number.le x p.1 then p.2
    else if Number.le last.1 x then last.2
    else interpolateFrom p rest x

def calibrate (c : Calibration α) (x : α) : Except (CalibrationError α) α :=
  if Number.isFinite x then .ok (c.interpolate x) else .error (.nonFiniteInput x)

/--
The tick at which a ramp from `a` to `b` over `length` ticks reaches a value, kept inside the ramp.
-/
def crossing (a b : α) (length : Nat) (x : α) : Nat :=
  let n : α := Number.ofNat length
  let t := n * (x - a) / (b - a)
  Number.ceilTick (if Number.lt t Number.zero then Number.zero else if Number.lt n t then n else t)

/--
The ticks at which a ramp crosses measured inputs, and its two ends, in ascending order.
-/
def cuts (c : Calibration α) (a b : α) (length : Nat) : List Nat :=
  ((c.inputs.map (crossing a b length) ++ [0, length]).mergeSort fun m n => m ≤ n).eraseReps

/--
The value of a ramp at a tick, as the pieces of its calibration are computed.
-/
def rampValue (a b : α) (length i : Nat) : α :=
  a + (b - a) * Number.ofNat i / Number.ofNat length

/--
The calibrated part of a ramp between two ticks that no measured input lies between.
-/
def piece (c : Calibration α) (a b : α) (length start stop : Nat) : Instruction α :=
  let y₀ := c.interpolate (rampValue a b length start)
  if stop = start + 1 then
    .pattern (.ofFloats [y₀])
  else
    let n := stop - start
    let y₁ := c.interpolate (rampValue a b length (stop - 1))
    .linear y₀ (y₀ + Number.ofNat n * (y₁ - y₀) / Number.ofNat (n - 1)) n

/--
The calibrated ramp from `a` to `b`.
-/
def applyRamp (c : Calibration α) (a b : α) (length : Nat) :
    Except (CalibrationError α) (Instruction α) := do
  let y ← c.calibrate a
  let _ ← c.calibrate b
  if a == b then
    .ok (.hold (.float y) length)
  else
    let ticks := c.cuts a b length
    let pieces := (ticks.zip (ticks.drop 1)).map fun (i, j) => c.piece a b length i j
    if pieces.isEmpty then .ok (.pattern (.empty .float))
    else (Instruction.concatenate pieces).mapError .instruction

mutual

/--
The calibrated copy of an instruction with one channel of floats.
-/
def applyFloat (c : Calibration α) (x : Instruction α) :
    Except (CalibrationError α) (Instruction α) :=
  match x with
  | .pattern p =>
    match p.columns with
    | [.float values] => do
      let calibrated ← values.mapM c.calibrate
      .ok (.pattern (.ofFloats calibrated))
    | _ => .error (.instruction (.unsupportedCast p.sampleType .float))
  | .ramp r =>
    match r.start, r.stop with
    | [a], [b] => c.applyRamp a b r.length
    | _, _ => .error (.instruction (.unsupportedCast r.sampleType .float))
  | .concatenated xs => do
    let ys ← c.applyFloatAll xs
    (Instruction.concatenate ys).mapError .instruction
  | .repeated n body => (·.times n) <$> c.applyFloat body

def applyFloatAll (c : Calibration α) (xs : List (Instruction α)) :
    Except (CalibrationError α) (List (Instruction α)) :=
  match xs with
  | [] => .ok []
  | x :: rest => do
    let y ← c.applyFloat x
    let ys ← c.applyFloatAll rest
    .ok (y :: ys)

end

def apply (c : Calibration α) (x : Instruction α) :
    Except (CalibrationError α) (Instruction α) := do
  let y ← (x.asType .float).mapError .instruction
  c.applyFloat y

end Calibration

end Waveplan
