import Waveplan.Instruction.Basic

/-!
This module contains how instructions are put end to end and repeated.

`join` keeps trees in normal form: concatenations are not nested, hold no empty instruction and no
two patterns in a row. `concatenate` first widens its operands to a common type.
-/

namespace Waveplan.Instruction

variable {α : Type} [Number α]

/--
The parts of a concatenation, any other instruction being its own only part.
-/
def parts : Instruction α → List (Instruction α)
  | concatenated xs => xs
  | x => [x]

def mergePatterns : List (Instruction α) → List (Instruction α)
  | [] => []
  | pattern p :: rest =>
    match mergePatterns rest with
    | pattern q :: more => pattern (p.append q) :: more
    | others => pattern p :: others
  | x :: rest => x :: mergePatterns rest

/--
The instruction that plays instructions of type `t` one after the other.
-/
def join (t : SampleType) (xs : List (Instruction α)) : Instruction α :=
  match mergePatterns ((xs.flatMap parts).filter fun x => !x.isEmpty) with
  | [] => pattern (.empty t)
  | [x] => x
  | merged => concatenated merged

/--
The instruction played `n` times in a row. Repetitions of a repetition are multiplied.
-/
def times (x : Instruction α) (n : Nat) : Instruction α :=
  if n = 0 ∨ x.length = 0 then pattern (.empty x.sampleType)
  else if n = 1 then x
  else
    match x with
    | repeated m body => repeated (m * n) body
    | x => repeated n x

/--
Copies of an instruction end to end. Other than `times` this is never a repetition at the top,
unless it is one copy of a repetition.
-/
def tile (x : Instruction α) (copies : Nat) : Instruction α :=
  join x.sampleType (List.replicate copies x)

mutual

/--
Cast every sample to a type, keeping the shape of the tree.
-/
def asType (x : Instruction α) (t : SampleType) : Except InstructionError (Instruction α) :=
  if x.sampleType = t then .ok x
  else
    match x with
    | pattern p => pattern <$> p.cast t
    | ramp r => ramp <$> r.cast t
    | concatenated xs => join t <$> asTypeAll xs t
    | repeated n body => (·.times n) <$> body.asType t

def asTypeAll (xs : List (Instruction α)) (t : SampleType) :
    Except InstructionError (List (Instruction α)) :=
  match xs with
  | [] => .ok []
  | x :: rest => do
    let y ← x.asType t
    let ys ← asTypeAll rest t
    .ok (y :: ys)

end

/--
The type that can hold the samples of all instructions.
-/
def commonType : List (Instruction α) → Except InstructionError SampleType
  | [] => .error .noInstructions
  | x :: rest => rest.foldlM (fun t y => t.promote y.sampleType) x.sampleType

/--
Instructions played one after the other, widened to their common type.
-/
def concatenate (xs : List (Instruction α)) : Except InstructionError (Instruction α) := do
  let t ← commonType xs
  let ys ← asTypeAll xs t
  .ok (join t ys)

mutual

/--
The ticks of an instruction as the program counts them, in machine words.
-/
def countTicks : Instruction α → Except InstructionError Nat
  | pattern p => Word.checked p.length
  | ramp r => Word.checked r.length
  | concatenated parts => countTicksFrom 0 parts
  | repeated n body => do
    let ticks ← body.countTicks
    Word.checked (n * ticks)

/--
The tick at which the parts of a concatenation end that begin at `start`.
-/
def countTicksFrom (start : Nat) : List (Instruction α) → Except InstructionError Nat
  | [] => .ok start
  | x :: xs => do
    let ticks ← x.countTicks
    let stop ← Word.checked (start + ticks)
    countTicksFrom stop xs

end

/--
An instruction that the program can hold, since it can count its ticks.
-/
def fit (x : Instruction α) : Except InstructionError (Instruction α) := do
  let _ ← x.countTicks
  .ok x

/--
What the program plays for instructions one after the other.
-/
def play (xs : List (Instruction α)) : Except InstructionError (Instruction α) := do
  let x ← concatenate xs
  x.fit

/--
A value of one channel held for `length` ticks.
-/
def hold (value : Scalar α) (length : Nat) : Instruction α :=
  let p := match value with
    | .bool b => Pattern.ofBools [b]
    | .float x => Pattern.ofFloats [x]
  (pattern p).times length

/--
A boolean level held for `length` ticks.
-/
def level (value : Bool) (length : Nat) : Instruction α := hold (.bool value) length

/--
A ramp of one channel from `start` to `stop` over `length` ticks.
-/
def linear (start stop : α) (length : Nat) : Instruction α :=
  if length = 0 then pattern (.empty .float) else ramp ⟨.float, [start], [stop], length⟩

def linearOf (t : SampleType) (start stop : Sample α) (length : Nat) :
    Except InstructionError (Instruction α) :=
  if length = 0 then
    if t.isInterpolable then .ok (pattern (.empty t)) else .error (.notInterpolable t)
  else
    let values (s : Sample α) := s.values.map Scalar.toFloat
    ramp <$> Ramp.ofEnds t (values start) (values stop) length

end Waveplan.Instruction
