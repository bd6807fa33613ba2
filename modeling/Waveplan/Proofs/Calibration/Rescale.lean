import Waveplan.Proofs.Instruction.Rescale

/-!
This module contains calibrations to another unit: if all outputs are multiplied by a factor, then
so is every sample of a calibrated instruction. The inputs alone decide where ramps are cut.
-/

namespace Waveplan.Calibration

open Instruction

variable (c : Calibration Exact) (k : Exact)

@[simp]
theorem inputs_mapOutputs (f : Exact → Exact) : (c.mapOutputs f).inputs = c.inputs := by
  simp [inputs, mapOutputs, Function.comp_def]

theorem mapOutputs_mapOutputs (f g : Exact → Exact) :
    (c.mapOutputs f).mapOutputs g = c.mapOutputs fun y => g (f y) := by
  simp [mapOutputs, Function.comp_def]

theorem cuts_mapOutputs (f : Exact → Exact) (a b : Exact) (n : Nat) :
    (c.mapOutputs f).cuts a b n = c.cuts a b n := by
  rw [cuts, cuts, inputs_mapOutputs]

/--
A point of a calibration to another unit.
-/
def rescalePoint (p : Exact × Exact) : Exact × Exact := (p.1, p.2 * k)

theorem points_mapOutputs : (c.mapOutputs (· * k)).points = c.points.map (rescalePoint k) := rfl

theorem lineThrough_rescalePoint (p q : Exact × Exact) (x : Exact) :
    lineThrough (rescalePoint k p) (rescalePoint k q) x = lineThrough p q x * k := by
  apply Exact.toRat_inj.mp
  unfold lineThrough rescalePoint
  dsimp only
  split
  . rfl
  . simp only [Exact.toRat_add, Exact.toRat_mul, Exact.toRat_div, Exact.toRat_sub]
    ring

theorem interpolateFrom_rescalePoint (p : Exact × Exact) (points : List (Exact × Exact))
    (x : Exact) :
    interpolateFrom (rescalePoint k p) (points.map (rescalePoint k)) x
      = interpolateFrom p points x * k := by
  induction points generalizing p with
  | nil => rfl
  | cons q points ih =>
    cases points with
    | nil => exact lineThrough_rescalePoint k p q x
    | cons r rest =>
      rw [List.map_cons, List.map_cons, interpolateFrom, interpolateFrom,
        lineThrough_rescalePoint, ← List.map_cons, ih]
      change (if Number.le q.1 x then _ else _) = _
      split <;> rfl

theorem interpolate_mapOutputs (x : Exact) :
    (c.mapOutputs (· * k)).interpolate x = c.interpolate x * k := by
  unfold interpolate
  rw [points_mapOutputs]
  cases c.points with
  | nil =>
    apply Exact.toRat_inj.mp
    rw [List.map_nil, Exact.toRat_mul, Exact.toRat_zero, zero_mul]
  | cons p rest =>
    have hlast : (rest.map (rescalePoint k)).getLastD (rescalePoint k p)
        = rescalePoint k (rest.getLastD p) := by
      cases rest.eq_nil_or_concat' with
      | inl h => rw [h]; rfl
      | inr h =>
        obtain ⟨front, q, rfl⟩ := h
        simp
    rw [List.map_cons]
    dsimp only
    rw [hlast, interpolateFrom_rescalePoint]
    change (if Number.le x p.1 then _ else if Number.le (rest.getLastD p).1 x then _ else _) = _
    split
    . rfl
    . split <;> rfl

theorem rescaled_piece (a b : Exact) (n start stop : Nat) :
    Rescaled k (c.piece a b n start stop) ((c.mapOutputs (· * k)).piece a b n start stop) := by
  unfold piece
  simp only [interpolate_mapOutputs]
  split
  . exact rescaled_ofFloats k [_]
  . -- the line beyond the last tick of the piece is rescaled with its two values
    have hend (y₀ y₁ m l : Exact) :
        y₀ * k + m * (y₁ * k - y₀ * k) / l = (y₀ + m * (y₁ - y₀) / l) * k := by
      apply Exact.toRat_inj.mp
      simp only [Exact.toRat_add, Exact.toRat_mul, Exact.toRat_div, Exact.toRat_sub]
      ring
    rw [hend]
    exact rescaled_linear k _ _ _

theorem agree_applyRamp (a b : Exact) (n : Nat) :
    Outcome.Agree (Rescaled k) (c.applyRamp a b n)
      ((c.mapOutputs (· * k)).applyRamp a b n) := by
  by_cases hab : a = b
  . subst hab
    rw [applyRamp_self, applyRamp_self, interpolate_mapOutputs]
    exact .ok (rescaled_hold k _ n)
  . rw [applyRamp_of_ne _ hab, applyRamp_of_ne _ hab, pieces, pieces, cuts_mapOutputs]
    apply Outcome.Agree.ok
    apply rescaled_join
    rw [List.forall₂_map_left_iff, List.forall₂_map_right_iff, List.forall₂_same]
    intro cut _
    exact c.rescaled_piece k a b n cut.1 cut.2

theorem agree_applyFloat (x : Instruction Exact) :
    Outcome.Agree (Rescaled k) (c.applyFloat x) ((c.mapOutputs (· * k)).applyFloat x) := by
  induction x with
  | pattern p =>
    rw [applyFloat, applyFloat]
    split
    . have hall (values : List Exact) (d : Calibration Exact) :
          values.mapM d.calibrate = .ok (values.map d.interpolate) := by
        rw [Outcome.mapM_eq_ok_iff, List.forall₂_map_right_iff, List.forall₂_same]
        exact fun _ _ => d.calibrate_eq _
      rw [hall, hall]
      apply Outcome.Agree.ok
      have hmap (values : List Exact) : values.map (c.mapOutputs (· * k)).interpolate
          = (values.map c.interpolate).map (· * k) := by
        simp [interpolate_mapOutputs]
      rw [hmap]
      exact rescaled_ofFloats k _
    . exact .error
  | ramp r =>
    rw [applyFloat, applyFloat]
    split
    . exact c.agree_applyRamp k _ _ _
    . exact .error
  | concatenated xs ih =>
    rw [applyFloat, applyFloat, applyFloatAll_eq, applyFloatAll_eq]
    exact (Outcome.Agree.mapM ih).bind fun _ _ h => (agree_concatenate h).mapError _ _
  | repeated n body ih =>
    rw [applyFloat, applyFloat]
    exact ih.bind fun _ _ h => .ok (h.times n)

theorem agree_apply (x : Instruction Exact) :
    Outcome.Agree (Rescaled k) (c.apply x) ((c.mapOutputs (· * k)).apply x) :=
  Outcome.Agree.bind_same fun y _ => c.agree_applyFloat k y

end Waveplan.Calibration
