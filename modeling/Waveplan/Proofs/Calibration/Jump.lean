import Waveplan.Proofs.Calibration.Samples

/-!
This module contains calibrations with jumps. A jump is interpolated by the output of one of its
points, whichever way a ramp passes it, so that a ramp that starts a longer piece on a jump can be
drawn towards the wrong side of it.
-/

namespace Waveplan.Calibration

open Instruction

variable {c : Calibration Exact}

theorem apply_ramp (c : Calibration Exact) (a b : Exact) (n : Nat) :
    c.apply (.ramp ⟨.float, [a], [b], n⟩) = c.applyRamp a b n := by
  rw [apply_of_asType (asType_eq_self rfl), applyFloat]

theorem exists_apply_toPattern (c : Calibration Exact) (a b : Exact) (n : Nat) :
    ∃ z, c.apply (.pattern (Ramp.toPattern ⟨.float, [a], [b], n⟩)) = .ok z ∧ z.length = n
      ∧ ∀ i < n, z.sampleAt i = ⟨[.float (c.interpolate (rampValue a b n i))]⟩ := by
  have hw : (Ramp.toPattern ⟨.float, [a], [b], n⟩).WellFormed :=
    Ramp.wellFormed_toPattern ⟨rfl, rfl, rfl⟩
  obtain ⟨z, hz, hl, hs⟩ := c.exists_applyFloat_pattern hw rfl
  refine ⟨z, (apply_of_asType (asType_eq_self rfl)).trans hz, hl, fun i hi => ?_⟩
  rw [hs i hi, Ramp.sample_toPattern hi, rampValue_eq]
  rfl

theorem sampleAt_applyRamp_iff (hc : c.Ascending) {a b : Exact} {n : Nat} {y : Instruction Exact}
    (hy : c.applyRamp a b n = .ok y) :
    (∀ i < n, y.sampleAt i = ⟨[.float (c.interpolate (rampValue a b n i))]⟩)
      ↔ a = b ∨ c.BeginsOnLines a b n := by
  by_cases hab : a = b
  . subst hab
    cases (c.applyRamp_self a n).symm.trans hy
    refine ⟨fun _ => .inl rfl, fun _ i hi => ?_⟩
    rw [sampleAt_hold _ hi, rampValue_self]
  . cases (c.applyRamp_of_ne hab n).symm.trans hy
    rw [sampleAt_pieces_iff hc hab]
    exact ⟨.inr, fun h => h.resolve_left hab⟩

theorem exists_apply_ramp (hc : c.Ascending) (a b : Exact) (n : Nat) :
    ∃ y z, c.apply (.ramp ⟨.float, [a], [b], n⟩) = .ok y
      ∧ c.apply (.pattern (Ramp.toPattern ⟨.float, [a], [b], n⟩)) = .ok z
      ∧ (y.toPattern = z.toPattern ↔ a = b ∨ c.BeginsOnLines a b n) := by
  obtain ⟨y, hy⟩ := c.exists_applyRamp a b n
  obtain ⟨z, hz, hlz, hs⟩ := c.exists_apply_toPattern a b n
  have hly : y.length = n := (applyRamp_of_crossing_le (fun x _ => crossing_le a b x _) hy).1
  have hty := typed_applyRamp hy
  have htz := typed_apply hz
  refine ⟨y, z, (c.apply_ramp a b n).trans hy, hz, ?_⟩
  rw [toPattern_eq_iff hty.normal htz.normal (hty.sampleType.trans htz.sampleType.symm)
    (hly.trans hlz.symm), hly, ← sampleAt_applyRamp_iff hc hy]
  exact forall₂_congr fun i hi => by rw [hs i hi]

/--
A ramp is calibrated like its samples exactly if each of its longer pieces begins on the line that
it follows. This can only fail on a jump.
-/
theorem toPattern_apply_ramp_eq_iff {points : List (Exact × Exact)} (h : ofPoints points = .ok c)
    (a b : Exact) (n : Nat) :
    ∃ y z, c.apply (.ramp ⟨.float, [a], [b], n⟩) = .ok y
      ∧ c.apply (.pattern (Ramp.toPattern ⟨.float, [a], [b], n⟩)) = .ok z
      ∧ (y.toPattern = z.toPattern ↔ a = b ∨ c.BeginsOnLines a b n)
      ∧ ∀ x, c.interpolate x ≠ c.onward a b x →
        ∃ p ∈ points, ∃ q ∈ points, p.1 = x ∧ q.1 = x ∧ p.2 ≠ q.2 := by
  obtain ⟨y, z, hy, hz, hiff⟩ := exists_apply_ramp (ascending_ofPoints h) a b n
  refine ⟨y, z, hy, hz, hiff, fun x hx => ?_⟩
  have hperm := perm_points h
  by_contra hne
  apply hx
  refine interpolate_eq_onward (ascending_ofPoints h) ?_ a b
  intro p hp q hq hpx hqx
  by_contra hpq
  exact hne ⟨p, hperm.mem_iff.mp hp, q, hperm.mem_iff.mp hq, hpx, hqx, hpq⟩

theorem cuts_eq {a b : Exact} {n : Nat} {l : List Nat} (hl : l.Pairwise (· ≤ ·))
    (h : (c.inputs.map (crossing a b n) ++ [0, n]).Perm l) : c.cuts a b n = l.eraseReps := by
  rw [cuts, List.Perm.eq_of_pairwise (fun _ _ _ _ => Nat.le_antisymm) (pairwise_mergeSort_le _) hl
    ((List.mergeSort_perm _ _).trans h)]

/--
Points whose output jumps from 2 to 10 at the input 2.
-/
def jump : Calibration Exact :=
  ⟨[(Number.ofNat 0, Number.ofNat 0), (Number.ofNat 2, Number.ofNat 2),
    (Number.ofNat 2, Number.ofNat 10), (Number.ofNat 4, Number.ofNat 12)]⟩

/--
A rise across the jump takes the output above the jump, from where it goes on.
-/
theorem toPattern_apply_rise_eq : ∃ y z,
    jump.apply (.ramp ⟨.float, [Number.ofNat 0], [Number.ofNat 4], 8⟩) = .ok y
      ∧ jump.apply (.pattern
        (Ramp.toPattern ⟨.float, [Number.ofNat 0], [Number.ofNat 4], 8⟩)) = .ok z
      ∧ y.toPattern = z.toPattern := by
  have hbegins : jump.BeginsOnLines (Number.ofNat 0) (Number.ofNat 4) 8 := by
    rw [BeginsOnLines, cuts_eq (l := [0, 0, 4, 4, 8, 8]) (by decide) (by decide +kernel)]
    decide +kernel
  obtain ⟨y, z, hy, hz, hiff, _⟩ := toPattern_apply_ramp_eq_iff
    (ofPoints_points (c := jump) (by decide) (by decide)) (Number.ofNat 0) (Number.ofNat 4) 8
  exact ⟨y, z, hy, hz, hiff.mpr (.inr hbegins)⟩

/--
A fall from the jump on begins with the output above the jump, and its other ticks are drawn from
there although they are below the jump.
-/
theorem toPattern_apply_fall_ne : ∃ y z, ofPoints jump.points = .ok jump
    ∧ jump.apply (.ramp ⟨.float, [Number.ofNat 2], [Number.ofNat 0], 4⟩) = .ok y
    ∧ jump.apply (.pattern
      (Ramp.toPattern ⟨.float, [Number.ofNat 2], [Number.ofNat 0], 4⟩)) = .ok z
    ∧ y.toPattern ≠ z.toPattern := by
  have hascending : jump.Ascending := by decide
  have hbegins : ¬jump.BeginsOnLines (Number.ofNat 2) (Number.ofNat 0) 4 := by
    rw [BeginsOnLines, cuts_eq (l := [0, 0, 0, 0, 4, 4]) (by decide) (by decide +kernel)]
    decide +kernel
  obtain ⟨y, z, hy, hz, hiff⟩ := exists_apply_ramp hascending (Number.ofNat 2) (Number.ofNat 0) 4
  refine ⟨y, z, ofPoints_points (by decide) hascending, hy, hz, fun h => ?_⟩
  exact (hiff.mp h).elim (by decide) hbegins

end Waveplan.Calibration
