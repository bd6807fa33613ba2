import Waveplan.Proofs.Instruction.Join

/-!
This module contains the shapes of instructions: their trees without the samples.

Whether something in a tree can be drawn together is seen from its shape, and in normal form there
is no such thing. Operations that replace the leaves and rebuild every node above them therefore
keep the shape.
-/

namespace Waveplan.Instruction

/--
The tree of an instruction without its samples.
-/
inductive Shape where
  | pattern (length : Nat)
  | ramp (length : Nat)
  | concatenated (bounds : List Nat) (parts : List Shape)
  | repeated (repetitions : Nat) (body : Shape)
  deriving Repr

def Shape.length : Shape → Nat
  | pattern n => n
  | ramp n => n
  | concatenated bounds _ => bounds.getLastD 0
  | repeated n body => n * body.length

variable {α : Type}

mutual

def shape : Instruction α → Shape
  | pattern p => .pattern p.length
  | ramp r => .ramp r.length
  | concatenated xs => .concatenated (bounds xs) (shapes xs)
  | repeated n body => .repeated n body.shape

def shapes : List (Instruction α) → List Shape
  | [] => []
  | x :: xs => x.shape :: shapes xs

end

variable {n : Nat} {t : SampleType} {x y body : Instruction α} {xs ys : List (Instruction α)}

section Shapes

theorem getLastD_boundsFrom (start d : Nat) (xs : List (Instruction α)) :
    (boundsFrom start xs).getLastD d = start + totalLength xs := by
  induction xs generalizing start d with
  | nil => simp [boundsFrom, totalLength]
  | cons x xs ih => rw [boundsFrom, List.getLastD_cons, ih, totalLength, Nat.add_assoc]

theorem length_shape (x : Instruction α) : x.shape.length = x.length := by
  induction x with
  | pattern p => rw [shape, Shape.length, length_pattern]
  | ramp r => rw [shape, Shape.length, length_ramp]
  | concatenated xs =>
    rw [shape, Shape.length, bounds, getLastD_boundsFrom, Nat.zero_add, length_concatenated]
  | repeated n body ih => rw [shape, Shape.length, ih, length_repeated]

theorem length_eq_of_shape_eq (h : y.shape = x.shape) : y.length = x.length := by
  rw [← length_shape, h, length_shape]

theorem isPattern_eq_of_shape_eq (h : y.shape = x.shape) : y.isPattern = x.isPattern := by
  cases x <;> cases y <;> simp_all [shape, isPattern]

theorem ne_concatenated_of_shape_eq (h : y.shape = x.shape) (hx : ∀ xs, x ≠ concatenated xs) :
    ∀ ys, y ≠ concatenated ys := by
  cases x <;> cases y <;> simp_all [shape]

theorem ne_repeated_of_shape_eq (h : y.shape = x.shape) (hx : ∀ m z, x ≠ repeated m z) :
    ∀ m z, y ≠ repeated m z := by
  cases x <;> cases y <;> simp_all [shape]

theorem boundsFrom_eq_of_shapes (h : List.Forall₂ (fun x y => y.shape = x.shape) xs ys)
    (start : Nat) : boundsFrom start ys = boundsFrom start xs := by
  induction h generalizing start with
  | nil => rfl
  | cons hx _ ih => rw [boundsFrom, boundsFrom, length_eq_of_shape_eq hx, ih]

theorem shape_concatenated_eq (h : List.Forall₂ (fun x y => y.shape = x.shape) xs ys) :
    (concatenated ys).shape = (concatenated xs).shape := by
  rw [shape, shape, bounds, bounds, boundsFrom_eq_of_shapes h]
  congr 1
  induction h with
  | nil => rfl
  | cons hx _ ih => rw [shapes, shapes, hx, ih]

end Shapes

section Normal

theorem arePatternsApart_of_shapes (h : List.Forall₂ (fun x y => y.shape = x.shape) xs ys)
    (hx : ArePatternsApart xs) : ArePatternsApart ys := by
  induction h with
  | nil => exact hx
  | cons hxy hs ih =>
    rw [arePatternsApart_cons] at hx ⊢
    rw [isPattern_eq_of_shape_eq hxy]
    refine ⟨fun hp => ?_, ih hx.2⟩
    cases hs with
    | nil => simp
    | cons hxy' _ => simpa [isPattern_eq_of_shape_eq hxy'] using hx.1 hp

/--
Parts of other samples and of the same shapes make a concatenation in normal form again.
-/
theorem typed_concatenated_of_shapes (hx : (concatenated xs).Normal)
    (h : List.Forall₂ (fun x y => y.Typed t ∧ y.shape = x.shape) xs ys) :
    (concatenated ys).Typed t := by
  obtain ⟨hl, ha, hparts⟩ := normal_concatenated.mp hx
  have hys : ∀ y ∈ ys, IsPart t y := Outcome.forall_mem_of_forall₂ <|
    Outcome.forall₂_imp_of_mem h fun x hm y hy => by
      obtain ⟨hty, hs⟩ := hy
      have hp := hparts x hm
      refine ⟨hty.normal, ?_, hty.sampleType, ne_concatenated_of_shape_eq hs hp.ne_concatenated⟩
      rw [length_eq_of_shape_eq hs]
      exact hp.length_pos
  have hn : 2 ≤ ys.length := h.length_eq ▸ hl
  have ht := headType_eq (List.ne_nil_of_length_pos (by omega)) fun y hy => (hys y hy).sampleType
  refine ⟨normal_concatenated.mpr ⟨hn, arePatternsApart_of_shapes (h.imp fun _ _ h => h.2) ha, ?_⟩,
    ht⟩
  rwa [ht]

theorem typed_repeated_of_shape (hx : (repeated n body).Normal) (hy : y.Typed t)
    (h : y.shape = body.shape) : (repeated n y).Typed t := by
  obtain ⟨hn, hl, hne, _⟩ := normal_repeated.mp hx
  refine ⟨normal_repeated.mpr ⟨hn, ?_, ne_repeated_of_shape_eq h hne, hy.normal⟩, hy.sampleType⟩
  rwa [length_eq_of_shape_eq h]

end Normal

section Rebuild

theorem parts_eq_singleton (h : ∀ ys, x ≠ concatenated ys) : x.parts = [x] := by
  cases x with
  | concatenated ys => exact absurd rfl (h ys)
  | _ => rfl

theorem filter_of_isPart (hxs : ∀ x ∈ xs, IsPart t x) : xs.filter (fun x => !x.isEmpty) = xs := by
  rw [List.filter_eq_self]
  intro x hx
  simpa [isEmpty] using Nat.ne_of_gt (hxs x hx).length_pos

theorem filter_parts_of_isPart (hxs : ∀ x ∈ xs, IsPart t x) :
    (xs.flatMap parts).filter (fun x => !x.isEmpty) = xs := by
  rw [List.flatMap_congr fun x hx => parts_eq_singleton (hxs x hx).ne_concatenated,
    List.flatMap_singleton', filter_of_isPart hxs]

theorem times_of_ne_repeated (hn : 2 ≤ n) (hl : x.length ≠ 0) (hx : ∀ m y, x ≠ repeated m y) :
    x.times n = repeated n x := by
  rw [times.eq_def, if_neg (by omega), if_neg (by omega)]
  cases x with
  | repeated m y => exact absurd rfl (hx m y)
  | _ => rfl

theorem times_eq_repeated (h : (repeated n x).Normal) : x.times n = repeated n x := by
  obtain ⟨hn, hl, hne, _⟩ := normal_repeated.mp h
  exact times_of_ne_repeated hn (Nat.ne_of_gt hl) hne

variable [Number α]

theorem mergePatterns_of_arePatternsApart (h : ArePatternsApart xs) : mergePatterns xs = xs := by
  induction xs with
  | nil => rfl
  | cons x xs ih =>
    rw [arePatternsApart_cons] at h
    have ih := ih h.2
    cases x with
    | pattern p =>
      rcases mergePatterns_pattern p xs with ⟨q, more, hq, _⟩ | ⟨_, hm⟩
      . have := h.1 rfl (pattern q)
        rw [← ih, hq] at this
        simp [isPattern] at this
      . rw [hm, ih]
    | _ => rw [mergePatterns_of_not_isPattern rfl, ih]

/--
The parts of a concatenation stay as they are when they are put end to end again.
-/
theorem join_eq_concatenated (h : (concatenated xs).Typed t) : join t xs = concatenated xs := by
  obtain ⟨hl, ha, hparts⟩ := normal_concatenated.mp h.normal
  rw [join, filter_parts_of_isPart hparts, mergePatterns_of_arePatternsApart ha]
  match xs, hl with
  | _ :: _ :: _, _ => rfl

end Rebuild

end Waveplan.Instruction
