import Mathlib.Algebra.GroupWithZero.Nat
import Waveplan.Proofs.Outcome
import Waveplan.Clock
import Waveplan.Instruction.Normal
import Waveplan.Instruction.Stack

/-!
This module contains the induction over the tree of an instruction, and the functions on the parts
of a concatenation as functions on lists.
-/

namespace Waveplan.Instruction

variable {α : Type}

@[elab_as_elim, induction_eliminator]
theorem induct {motive : Instruction α → Prop} (pattern : ∀ p, motive (.pattern p))
    (ramp : ∀ r, motive (.ramp r))
    (concatenated : ∀ xs, (∀ x ∈ xs, motive x) → motive (.concatenated xs))
    (repeated : ∀ n body, motive body → motive (.repeated n body)) (x : Instruction α) :
    motive x := by
  refine @Instruction.rec α motive (fun xs => ∀ x ∈ xs, motive x) pattern ramp concatenated repeated
    ?_ ?_ x
  . simp
  . intro x xs hx hxs
    exact List.forall_mem_cons.mpr ⟨hx, hxs⟩

theorem totalLength_eq (xs : List (Instruction α)) : totalLength xs = (xs.map length).sum := by
  induction xs with
  | nil => rfl
  | cons x xs ih => rw [totalLength, ih, List.map_cons, List.sum_cons]

@[simp]
theorem totalLength_append (xs ys : List (Instruction α)) :
    totalLength (xs ++ ys) = totalLength xs + totalLength ys := by
  simp [totalLength_eq]

@[simp]
theorem length_pattern (p : Pattern α) : (pattern p).length = p.length := by
  rw [length]

@[simp]
theorem length_ramp (r : Ramp α) : (ramp r).length = r.length := by
  rw [length]

@[simp]
theorem length_concatenated (xs : List (Instruction α)) :
    (concatenated xs).length = totalLength xs := by
  rw [length]

@[simp]
theorem length_repeated (n : Nat) (x : Instruction α) :
    (repeated n x).length = n * x.length := by
  rw [length]

@[simp]
theorem sampleType_pattern (p : Pattern α) : (pattern p).sampleType = p.sampleType := rfl

@[simp]
theorem sampleType_ramp (r : Ramp α) : (ramp r).sampleType = r.sampleType := rfl

@[simp]
theorem sampleType_concatenated (xs : List (Instruction α)) :
    (concatenated xs).sampleType = headType xs := rfl

@[simp]
theorem sampleType_repeated (n : Nat) (x : Instruction α) :
    (repeated n x).sampleType = x.sampleType := rfl

/--
What can be a part of a concatenation of samples of type `t`.
-/
structure IsPart (t : SampleType) (x : Instruction α) : Prop where
  normal : x.Normal
  length_pos : 0 < x.length
  sampleType : x.sampleType = t
  ne_concatenated : ∀ xs, x ≠ concatenated xs

theorem areParts_iff {t : SampleType} {xs : List (Instruction α)} :
    AreParts t xs ↔ ∀ x ∈ xs, IsPart t x := by
  induction xs with
  | nil => simp [AreParts]
  | cons x xs ih =>
    rw [AreParts, ih, List.forall_mem_cons]
    constructor
    . rintro ⟨h₁, h₂, h₃, h₄, h⟩
      exact ⟨⟨h₁, h₂, h₃, h₄⟩, h⟩
    . rintro ⟨⟨h₁, h₂, h₃, h₄⟩, h⟩
      exact ⟨h₁, h₂, h₃, h₄, h⟩

theorem normal_pattern {p : Pattern α} : (pattern p).Normal ↔ p.WellFormed := by
  rw [Normal]

theorem normal_ramp {r : Ramp α} : (ramp r).Normal ↔ r.WellFormed ∧ 0 < r.length := by
  rw [Normal]

theorem normal_repeated {n : Nat} {body : Instruction α} :
    (repeated n body).Normal
      ↔ 2 ≤ n ∧ 0 < body.length ∧ (∀ m x, body ≠ repeated m x) ∧ body.Normal := by
  rw [Normal]

theorem normal_concatenated {xs : List (Instruction α)} :
    (concatenated xs).Normal
      ↔ 2 ≤ xs.length ∧ ArePatternsApart xs ∧ ∀ x ∈ xs, IsPart (headType xs) x := by
  rw [Normal, areParts_iff]

theorem ne_nil_of_forall₂ {β : Type} {R : Instruction α → β → Prop} {xs : List (Instruction α)}
    {ys : List β} (hx : (concatenated xs).Normal) (h : List.Forall₂ R xs ys) : ys ≠ [] := by
  have hn := (normal_concatenated.mp hx).1
  have hl := h.length_eq
  exact List.ne_nil_of_length_pos (by omega)

theorem headType_eq {t : SampleType} {xs : List (Instruction α)} (hne : xs ≠ [])
    (h : ∀ x ∈ xs, x.sampleType = t) : headType xs = t := by
  cases xs with
  | nil => contradiction
  | cons x xs => exact h x List.mem_cons_self

theorem boundsFrom_eq (start : Nat) (xs : List (Instruction α)) :
    boundsFrom start xs
      = (List.range (xs.length + 1)).map fun i => start + ((xs.take i).map length).sum := by
  induction xs generalizing start with
  | nil => simp [boundsFrom]
  | cons x xs ih =>
    rw [boundsFrom, ih, List.length_cons, List.range_succ_eq_map (n := xs.length + 1)]
    simp [Function.comp_def, Nat.add_assoc]

theorem relabelAll_eq (xs : List (Instruction α)) (t : SampleType) :
    relabelAll xs t = xs.map (·.relabel t) := by
  induction xs with
  | nil => rfl
  | cons x xs ih => rw [relabelAll, ih, List.map_cons]

section Lists

variable [Number α]

theorem toPatterns_eq (xs : List (Instruction α)) : toPatterns xs = xs.map toPattern := by
  induction xs with
  | nil => rfl
  | cons x xs ih => rw [toPatterns, ih, List.map_cons]

theorem fieldAll_eq (xs : List (Instruction α)) (name : String) :
    fieldAll xs name = xs.mapM (·.field name) := by
  induction xs with
  | nil => rfl
  | cons x xs ih => rw [fieldAll, ih, List.mapM_cons]; rfl

theorem asTypeAll_eq (xs : List (Instruction α)) (t : SampleType) :
    asTypeAll xs t = xs.mapM (·.asType t) := by
  induction xs with
  | nil => rfl
  | cons x xs ih => rw [asTypeAll, ih, List.mapM_cons]; rfl

theorem applyAll_eq (f : Pattern α → Except InstructionError (Pattern α))
    (xs : List (Instruction α)) : applyAll f xs = xs.mapM (·.apply f) := by
  induction xs with
  | nil => rfl
  | cons x xs ih => rw [applyAll, ih, List.mapM_cons]; rfl

end Lists

end Waveplan.Instruction

namespace Waveplan

variable {α : Type} [Number α]

theorem Calibration.applyFloatAll_eq (c : Calibration α) (xs : List (Instruction α)) :
    c.applyFloatAll xs = xs.mapM c.applyFloat := by
  induction xs with
  | nil => rfl
  | cons x xs ih => rw [applyFloatAll, ih, List.mapM_cons]; rfl

theorem Clock.adaptiveAll_eq (pulse : Instruction α) (xs : List (Instruction α)) :
    adaptiveAll pulse xs = xs.mapM (adaptive pulse) := by
  induction xs with
  | nil => rfl
  | cons x xs ih => rw [adaptiveAll, ih, List.mapM_cons]; rfl

end Waveplan
