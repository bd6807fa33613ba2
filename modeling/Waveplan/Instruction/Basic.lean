import Waveplan.Instruction.Ramp

/-!
This module contains instructions: what a sequencer outputs at every tick, as a tree whose leaves
are patterns and ramps, and whose inner nodes play instructions one after the other or repeat one.

`Instruction.toPattern` is the view of an instruction as its samples.
-/

namespace Waveplan

inductive Instruction (α : Type) where
  | pattern (p : Pattern α)
  | ramp (r : Ramp α)
  | concatenated (parts : List (Instruction α))
  | repeated (repetitions : Nat) (body : Instruction α)
  deriving Repr

namespace Instruction

variable {α : Type}

mutual

/--
The number of ticks, however many they are. The program counts them in machine words, by
`Instruction.countTicks`.
-/
def length : Instruction α → Nat
  | pattern p => p.length
  | ramp r => r.length
  | concatenated parts => totalLength parts
  | repeated n body => n * body.length

def totalLength : List (Instruction α) → Nat
  | [] => 0
  | x :: xs => x.length + totalLength xs

end

def isEmpty (x : Instruction α) : Bool := x.length = 0

mutual

/--
The type of the samples. Parts of a concatenation have one type, the one of the first.
-/
def sampleType : Instruction α → SampleType
  | pattern p => p.sampleType
  | ramp r => r.sampleType
  | concatenated parts => headType parts
  | repeated _ body => body.sampleType

def headType : List (Instruction α) → SampleType
  | [] => .record []
  | x :: _ => x.sampleType

end

def width (x : Instruction α) : Nat := x.sampleType.width

mutual

/--
How deeply the tree is nested, a pattern having depth zero.
-/
def depth : Instruction α → Nat
  | pattern _ => 0
  | ramp _ => 1
  | concatenated parts => 1 + maxDepth parts
  | repeated _ body => 1 + body.depth

def maxDepth : List (Instruction α) → Nat
  | [] => 0
  | x :: xs => Nat.max x.depth (maxDepth xs)

end

mutual

/--
How much is stored: the samples of the patterns and one for each ramp, a repeated instruction
counting once.
-/
def storedSize : Instruction α → Nat
  | pattern p => p.length
  | ramp _ => 1
  | concatenated parts => totalStoredSize parts
  | repeated _ body => body.storedSize

def totalStoredSize : List (Instruction α) → Nat
  | [] => 0
  | x :: xs => x.storedSize + totalStoredSize xs

end

/--
The ticks at which the parts of a concatenation begin, counted from `start`, and its end.
-/
def boundsFrom (start : Nat) : List (Instruction α) → List Nat
  | [] => [start]
  | x :: xs => start :: boundsFrom (start + x.length) xs

/--
The ticks at which the parts of a concatenation begin, and its end. They are all words if its ticks
can be counted.
-/
def bounds (parts : List (Instruction α)) : List Nat := boundsFrom 0 parts

mutual

/--
Whether two trees have the same nodes and the same values.
-/
def same [BEq α] : Instruction α → Instruction α → Bool
  | pattern p, pattern q => p == q
  | ramp r, ramp s => r == s
  | concatenated xs, concatenated ys => sameParts xs ys
  | repeated m x, repeated n y => m == n && x.same y
  | _, _ => false

def sameParts [BEq α] : List (Instruction α) → List (Instruction α) → Bool
  | [], [] => true
  | x :: xs, y :: ys => x.same y && sameParts xs ys
  | _, _ => false

end

instance [BEq α] : BEq (Instruction α) := ⟨same⟩

variable [Number α]

mutual

def toPattern : Instruction α → Pattern α
  | pattern p => p
  | ramp r => r.toPattern
  | concatenated parts => Pattern.concat (headType parts) (toPatterns parts)
  | repeated n body => body.toPattern.tile n

def toPatterns : List (Instruction α) → List (Pattern α)
  | [] => []
  | x :: xs => x.toPattern :: toPatterns xs

end

mutual

/--
The sample at a tick below the length, read off the tree.
-/
def sampleAt : Instruction α → Nat → Sample α
  | pattern p, i => p.sample i
  | ramp r, i => r.sample i
  | concatenated parts, i => sampleAtParts parts i
  | repeated _ body, i => body.sampleAt (i % body.length)

def sampleAtParts : List (Instruction α) → Nat → Sample α
  | [], _ => ⟨[]⟩
  | x :: xs, i => if i < x.length then x.sampleAt i else sampleAtParts xs (i - x.length)

end

/--
The tick that an index means: indices below zero count from the end. The length is read as a signed
word, so that nothing counts from the end of an instruction that is longer than such words.
-/
def resolveIndex (length : Nat) (index : Int) : Except InstructionError Int :=
  if index < 0 then Word.checkedSigned (index + Word.toSigned length) else .ok index

/--
The sample at an index, negative indices counting from the end.
-/
def get (x : Instruction α) (index : Int) : Except InstructionError (Sample α) := do
  let i ← resolveIndex x.length index
  if i < 0 ∨ (x.length : Int) ≤ i then .error (.indexOutOfBounds index x.length)
  else .ok (x.sampleAt i.toNat)

mutual

def text : Instruction α → String
  | pattern p => p.text
  | ramp r => r.text
  | concatenated parts => " + ".intercalate (texts parts)
  | repeated n body => s!"{n} * (" ++ body.text ++ ")"

def texts : List (Instruction α) → List String
  | [] => []
  | x :: xs => x.text :: texts xs

end

end Instruction

end Waveplan
