import Waveplan.Proofs.Instruction.Built

/-!
This module contains that no instruction is deeper than it is long. Every node above the leaves of a
tree in normal form plays more ticks than the deepest instruction below it.
-/

namespace Waveplan.Instruction

variable {α : Type} {x : Instruction α}

theorem length_le_totalLength_of_pos {xs : List (Instruction α)} (hpos : ∀ x ∈ xs, 0 < x.length) :
    xs.length ≤ totalLength xs := by
  induction xs with
  | nil => exact Nat.le_refl _
  | cons x xs ih =>
    obtain ⟨hx, hpos⟩ := List.forall_mem_cons.mp hpos
    have hrest := ih hpos
    rw [List.length_cons, totalLength]
    omega

/--
Every part besides the deepest one is played for at least one tick.
-/
theorem maxDepth_add_length_le {xs : List (Instruction α)} (hpos : ∀ x ∈ xs, 0 < x.length)
    (hdepth : ∀ x ∈ xs, x.depth ≤ x.length) :
    maxDepth xs + xs.length ≤ totalLength xs + 1 := by
  induction xs with
  | nil => exact Nat.zero_le _
  | cons x xs ih =>
    obtain ⟨hx, hpos⟩ := List.forall_mem_cons.mp hpos
    obtain ⟨hxd, hdepth⟩ := List.forall_mem_cons.mp hdepth
    have hrest := ih hpos hdepth
    have hlength := length_le_totalLength_of_pos hpos
    have hmax : Nat.max x.depth (maxDepth xs) = max x.depth (maxDepth xs) := rfl
    rw [maxDepth, List.length_cons, totalLength, hmax]
    omega

theorem depth_le_length_of_normal (hx : x.Normal) : x.depth ≤ x.length := by
  induction x with
  | pattern p => exact Nat.zero_le _
  | ramp r =>
    rw [depth, length_ramp]
    exact (normal_ramp.mp hx).2
  | concatenated xs ih =>
    obtain ⟨hn, _, hparts⟩ := normal_concatenated.mp hx
    have hle := maxDepth_add_length_le (fun x hm => (hparts x hm).length_pos)
      fun x hm => ih x hm (hparts x hm).normal
    rw [depth, length_concatenated]
    omega
  | repeated n body ih =>
    obtain ⟨hn, hpos, _, hbody⟩ := normal_repeated.mp hx
    rw [depth, length_repeated]
    calc
      1 + body.depth ≤ body.length + body.length := Nat.add_le_add hpos (ih hbody)
      _ = 2 * body.length := (Nat.two_mul _).symm
      _ ≤ n * body.length := Nat.mul_le_mul_right _ hn

variable [Number α]

/--
Whatever is built, it is not deeper than it is long.
-/
theorem depth_le_length (hx : Built x) : x.depth ≤ x.length :=
  depth_le_length_of_normal (normal_of_built hx)

/--
A ramp of one tick and a value behind it are as deep as they are long.
-/
theorem depth_le_length_stepAndValue :
    ∃ x : Instruction Float, concatenate [linear 0 1 1, pattern (.ofFloats [1])] = .ok x
      ∧ x.depth = 2 ∧ x.length = 2 ∧ x.depth ≤ x.length := by
  have h : concatenate [linear (0 : Float) 1 1, pattern (.ofFloats [1])]
      = .ok (concatenated [ramp ⟨.float, [0], [1], 1⟩, pattern (.ofFloats [1])]) := rfl
  refine ⟨_, h, rfl, rfl, depth_le_length (.concatenate ?_ h)⟩
  intro x hx
  rcases List.mem_pair.mp hx with rfl | rfl
  . exact .linear 0 1 1
  . exact .ofFloats [1]

end Waveplan.Instruction
