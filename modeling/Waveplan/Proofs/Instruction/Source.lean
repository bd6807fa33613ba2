import Waveplan.Proofs.Instruction.Tree

/-!
This module contains what is played at each tick of an instruction: a sample that is written out, or
a tick of a ramp. Two ramps can have the same sample at a tick and differ once they are calibrated,
since ramps are calibrated as a whole, so that the samples alone do not tell how a tick is
calibrated.
-/

namespace Waveplan

/--
What is played at a tick.
-/
inductive Source (α : Type) where
  | written (s : Sample α)
  | ramp (r : Ramp α) (tick : Nat)

variable {α : Type} [Number α]

def Source.value : Source α → Sample α
  | written s => s
  | ramp r i => r.sample i

namespace Instruction

mutual

/--
What is played at a tick below the length.
-/
def sourceAt : Instruction α → Nat → Source α
  | pattern p, i => .written (p.sample i)
  | ramp r, i => .ramp r i
  | concatenated parts, i => sourceAtParts parts i
  | repeated _ body, i => body.sourceAt (i % body.length)

def sourceAtParts : List (Instruction α) → Nat → Source α
  | [], _ => .written ⟨[]⟩
  | x :: xs, i => if i < x.length then x.sourceAt i else sourceAtParts xs (i - x.length)

end

theorem sampleAt_eq (x : Instruction α) (i : Nat) : x.sampleAt i = (x.sourceAt i).value := by
  induction x generalizing i with
  | pattern p => rfl
  | ramp r => rfl
  | concatenated xs ih =>
    rw [sampleAt, sourceAt]
    induction xs generalizing i with
    | nil => rfl
    | cons x xs ihs =>
      obtain ⟨hx, hxs⟩ := List.forall_mem_cons.mp ih
      rw [sampleAtParts, sourceAtParts, apply_ite Source.value, hx, ihs hxs]
  | repeated n body ih => rw [sampleAt, sourceAt, ih]

theorem sampleAtParts_eq (xs : List (Instruction α)) (i : Nat) :
    sampleAtParts xs i = (sourceAtParts xs i).value :=
  sampleAt_eq (concatenated xs) i

end Instruction

end Waveplan
