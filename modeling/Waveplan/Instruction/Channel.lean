import Waveplan.Instruction.Join

/-!
This module contains the operations that act on the samples of an instruction and keep the shape of
its tree: the choice of a channel, the naming of a channel, and functions on patterns.
-/

namespace Waveplan.Instruction

variable {α : Type} [Number α]

mutual

def field (x : Instruction α) (name : String) : Except InstructionError (Instruction α) :=
  match x with
  | pattern p => pattern <$> p.field name
  | ramp r => ramp <$> r.field name
  | concatenated xs => do
    let ys ← fieldAll xs name
    .ok (join (headType ys) ys)
  | repeated n body => (·.times n) <$> body.field name

def fieldAll (xs : List (Instruction α)) (name : String) :
    Except InstructionError (List (Instruction α)) :=
  match xs with
  | [] => .ok []
  | x :: rest => do
    let y ← x.field name
    let ys ← fieldAll rest name
    .ok (y :: ys)

end

mutual

def relabel (x : Instruction α) (t : SampleType) : Instruction α :=
  match x with
  | pattern p => pattern (p.relabel t)
  | ramp r => ramp (r.relabel t)
  | concatenated xs => concatenated (relabelAll xs t)
  | repeated n body => repeated n (body.relabel t)

def relabelAll (xs : List (Instruction α)) (t : SampleType) : List (Instruction α) :=
  match xs with
  | [] => []
  | x :: rest => x.relabel t :: relabelAll rest t

end

def withName (x : Instruction α) (name : String) : Except InstructionError (Instruction α) :=
  match x.sampleType.kinds with
  | [kind] => .ok (x.relabel (.named name kind))
  | _ => .error (.unsupportedCast x.sampleType (.named name .float))

/--
Apply a function to one pattern. The function must keep the length.
-/
def applyPattern (f : Pattern α → Except InstructionError (Pattern α)) (p : Pattern α) :
    Except InstructionError (Instruction α) := do
  let q ← f p
  if q.length = p.length then .ok (pattern q) else .error (.lengthMismatch p.length q.length)

mutual

/--
Map every sample through a function on patterns. Ramps are written out first, and the body of a
repetition is passed once.
-/
def apply (f : Pattern α → Except InstructionError (Pattern α)) (x : Instruction α) :
    Except InstructionError (Instruction α) :=
  match x with
  | pattern p => applyPattern f p
  | ramp r => applyPattern f r.toPattern
  | concatenated xs => do
    let ys ← applyAll f xs
    concatenate ys
  | repeated n body => (·.times n) <$> body.apply f

def applyAll (f : Pattern α → Except InstructionError (Pattern α)) (xs : List (Instruction α)) :
    Except InstructionError (List (Instruction α)) :=
  match xs with
  | [] => .ok []
  | x :: rest => do
    let y ← x.apply f
    let ys ← applyAll f rest
    .ok (y :: ys)

end

end Waveplan.Instruction
