import Waveplan.Instruction.Pattern

/-!
This module contains ramps: linear interpolations that are stored by their end points.
-/

namespace Waveplan

/--
A linear interpolation between two samples of floats over `length` ticks. `stop` is the value one
tick past the end, so it is never output.
-/
structure Ramp (α : Type) where
  sampleType : SampleType
  start : List α
  stop : List α
  length : Nat
  deriving BEq, DecidableEq, Repr

namespace Ramp

variable {α : Type}

/--
A ramp from its end points, which must have one value per channel.
-/
def ofEnds (t : SampleType) (start stop : List α) (length : Nat) :
    Except InstructionError (Ramp α) :=
  if !t.isInterpolable then .error (.notInterpolable t)
  else if start.length ≠ t.width then .error (.sampleWidth t t.width start.length)
  else if stop.length ≠ t.width then .error (.sampleWidth t t.width stop.length)
  else .ok ⟨t, start, stop, length⟩

def startSample (r : Ramp α) : Sample α := ⟨r.start.map .float⟩

def stopSample (r : Ramp α) : Sample α := ⟨r.stop.map .float⟩

def field (r : Ramp α) (name : String) : Except InstructionError (Ramp α) := do
  let (index, t) ← r.sampleType.project name
  .ok ⟨t, r.start[index]?.toList, r.stop[index]?.toList, r.length⟩

def cast (r : Ramp α) (t : SampleType) : Except InstructionError (Ramp α) := do
  r.sampleType.checkCast t
  if t.isInterpolable then .ok { r with sampleType := t }
  else .error (.unsupportedCast r.sampleType t)

def relabel (r : Ramp α) (t : SampleType) : Ramp α := { r with sampleType := t }

variable [Number α]

/--
The value at tick `i` of a ramp from `a` to `b` over `length` ticks.
-/
def valueAt (a b : α) (length i : Nat) : α :=
  a + Number.ofNat i * (b - a) / Number.ofNat length

def valuesAt (r : Ramp α) (i : Nat) : List α :=
  List.zipWith (fun a b => valueAt a b r.length i) r.start r.stop

def sample (r : Ramp α) (i : Nat) : Sample α := ⟨(r.valuesAt i).map .float⟩

/--
The part from tick `start` up to but not including tick `stop`, for `start < stop ≤ length`. A part
that reaches the end keeps the end point.
-/
def slice (r : Ramp α) (start stop : Nat) : Ramp α :=
  { sampleType := r.sampleType
    start := r.valuesAt start
    stop := if stop = r.length then r.stop else r.valuesAt stop
    length := stop - start }

def toPattern (r : Ramp α) : Pattern α :=
  let column (a b : α) : Column α := .float ((List.range r.length).map (valueAt a b r.length))
  ⟨r.sampleType, List.zipWith column r.start r.stop, r.length⟩

def text (r : Ramp α) : String :=
  r.startSample.text ++ s!" -{r.length}-> " ++ r.stopSample.text

end Ramp

end Waveplan
