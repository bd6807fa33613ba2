import Waveplan.Proofs.Calibration.Interpolation

/-!
This module contains the calibration of ramps of exact numbers. A ramp is cut where it reaches
measured inputs, so that between two cuts it stays on one line of the calibration. A piece is drawn
from its first tick to its last one, and therefore plays the interpolation of each of its ticks
unless it begins on a jump of the output and the interpolation takes the side that the ramp leaves.
-/

namespace Waveplan.Calibration

open Instruction

section Crossing

variable {a b x : Exact} {n k : Nat}

theorem toRat_rampValue (a b : Exact) (n k : Nat) :
    (rampValue a b n k).toRat = a.toRat + (b.toRat - a.toRat) * k / n := rfl

theorem rampValue_eq (a b : Exact) (n k : Nat) : rampValue a b n k = Ramp.valueAt a b n k := by
  apply Exact.toRat_inj.mp
  rw [toRat_rampValue, Ramp.toRat_valueAt, mul_comm]

theorem rampValue_self (a : Exact) (n k : Nat) : rampValue a a n k = a := by
  apply Exact.toRat_inj.mp
  rw [toRat_rampValue, sub_self, zero_mul, zero_div, add_zero]

theorem crossing_le_iff (hk : k < n) :
    crossing a b n x ≤ k ↔ n * (x.toRat - a.toRat) / (b.toRat - a.toRat) ≤ k := by
  have hkn : (k : ℚ) < n := by exact_mod_cast hk
  unfold crossing
  dsimp only
  rw [Exact.ceilTick_eq, Nat.ceil_le]
  split
  . next h =>
    rw [Exact.lt_iff, Exact.toRat_zero] at h
    rw [Exact.toRat_zero]
    have : (0 : ℚ) ≤ k := Nat.cast_nonneg k
    exact ⟨fun _ => le_trans (le_of_lt h) this, fun _ => this⟩
  . split
    . next h =>
      rw [Exact.lt_iff, Exact.toRat_ofNat] at h
      rw [Exact.toRat_ofNat]
      exact ⟨fun h => absurd h (not_le.mpr hkn), fun h' => absurd (lt_trans hkn h) (not_lt.mpr h')⟩
    . rfl

theorem crossing_le_iff_of_lt (hab : a.toRat < b.toRat) (hk : k < n) :
    crossing a b n x ≤ k ↔ x.toRat ≤ (rampValue a b n k).toRat := by
  have hn : (0 : ℚ) < n := by
    have : 0 < n := by omega
    exact_mod_cast this
  rw [crossing_le_iff hk, toRat_rampValue, div_le_iff₀ (sub_pos.mpr hab), ← sub_le_iff_le_add',
    le_div_iff₀ hn, mul_comm (n : ℚ), mul_comm (k : ℚ)]

theorem crossing_le_iff_of_gt (hab : b.toRat < a.toRat) (hk : k < n) :
    crossing a b n x ≤ k ↔ (rampValue a b n k).toRat ≤ x.toRat := by
  have hn : (0 : ℚ) < n := by
    have : 0 < n := by omega
    exact_mod_cast this
  rw [crossing_le_iff hk, toRat_rampValue, div_le_iff_of_neg (sub_neg.mpr hab),
    ← le_sub_iff_add_le', div_le_iff₀ hn, mul_comm (n : ℚ), mul_comm (k : ℚ)]

end Crossing

section Cut

variable {c : Calibration Exact} {a b : Exact} {n start stop k : Nat}

theorem isPartition_exact (c : Calibration Exact) (a b : Exact) (n : Nat) :
    IsPartition 0 n (c.cuts a b n) :=
  isPartition_cuts fun x _ => crossing_le a b x n

theorem crossing_mem_cuts {p : Exact × Exact} (hp : p ∈ c.points) :
    crossing a b n p.1 ∈ c.cuts a b n := by
  unfold cuts
  rw [mem_eraseReps, List.mem_mergeSort]
  exact List.mem_append_left _ (List.mem_map_of_mem (List.mem_map_of_mem hp))

variable (hcut : (start, stop) ∈ intervals (c.cuts a b n))

include hcut

theorem lt_of_mem_cuts (hk : k < stop) : k < n :=
  Nat.lt_of_lt_of_le hk ((isPartition_exact c a b n).mem_intervals _ hcut).2.2

theorem start_lt_of_mem_cuts : start < stop :=
  ((isPartition_exact c a b n).mem_intervals _ hcut).2.1

/--
Between two cuts no measured input is reached.
-/
theorem crossing_le_iff_start {p : Exact × Exact} (hp : p ∈ c.points) (hs : start ≤ k)
    (hk : k < stop) : crossing a b n p.1 ≤ k ↔ crossing a b n p.1 ≤ start := by
  have := (isPartition_exact c a b n).le_or_le_of_mem_intervals
    (crossing_mem_cuts (a := a) (b := b) hp) _ hcut
  dsimp only at this
  omega

theorem exists_onward_eq (hab : a ≠ b) :
    ∃ u v : ℚ, ∀ k, start ≤ k → k < stop →
      (c.onward a b (rampValue a b n k)).toRat = u + v * k := by
  have hlt := start_lt_of_mem_cuts hcut
  -- the line is the same at every tick, since the same inputs lie below and above it
  have hline : ∃ line : Exact → Exact, (∃ u v : ℚ, ∀ x, (line x).toRat = u + v * x.toRat)
      ∧ ∀ k, start ≤ k → k < stop →
        c.onward a b (rampValue a b n k) = line (rampValue a b n k) := by
    rcases lt_or_gt_of_ne (fun h => hab (Exact.toRat_inj.mp h)) with h | h
    . refine ⟨c.above (rampValue a b n start), exists_between_eq _ _, fun k hs hk => ?_⟩
      rw [onward, if_pos (Exact.lt_iff.mpr h), above_congr]
      intro p hp
      rw [← crossing_le_iff_of_lt h (lt_of_mem_cuts hcut hk),
        ← crossing_le_iff_of_lt h (lt_of_mem_cuts hcut hlt)]
      exact crossing_le_iff_start hcut hp hs hk
    . refine ⟨c.below (rampValue a b n start), exists_between_eq _ _, fun k hs hk => ?_⟩
      rw [onward, if_neg (fun hab => lt_asymm h (Exact.lt_iff.mp hab)), below_congr]
      intro p hp
      rw [← crossing_le_iff_of_gt h (lt_of_mem_cuts hcut hk),
        ← crossing_le_iff_of_gt h (lt_of_mem_cuts hcut hlt)]
      exact crossing_le_iff_start hcut hp hs hk
  obtain ⟨line, ⟨u, v, huv⟩, hline⟩ := hline
  refine ⟨u + v * a.toRat, v * (b.toRat - a.toRat) / n, fun k hs hk => ?_⟩
  rw [hline k hs hk, huv, toRat_rampValue]
  ring

theorem isContinuousAt_of_inside (hab : a ≠ b) (hs : start < k) (hk : k < stop) :
    c.IsContinuousAt (rampValue a b n k) := by
  have hlt := start_lt_of_mem_cuts hcut
  have hn : (0 : ℚ) < n := by
    have := lt_of_mem_cuts hcut hk
    exact_mod_cast Nat.lt_of_le_of_lt (Nat.zero_le k) this
  have hsk : (start : ℚ) < k := by exact_mod_cast hs
  apply isContinuousAt_of_ne
  intro p hp he
  have he : p.1.toRat = (rampValue a b n k).toRat := he
  have hiff := crossing_le_iff_start hcut hp (Nat.le_of_lt hs) hk
  -- a point at this tick would have been reached by the tick of the cut
  rcases lt_or_gt_of_ne (fun h => hab (Exact.toRat_inj.mp h)) with h | h
  . rw [crossing_le_iff_of_lt h (lt_of_mem_cuts hcut hk),
      crossing_le_iff_of_lt h (lt_of_mem_cuts hcut hlt), he] at hiff
    have hle := hiff.mp (le_refl _)
    rw [toRat_rampValue, toRat_rampValue, add_le_add_iff_left, div_le_div_iff_of_pos_right hn,
      mul_le_mul_iff_right₀ (sub_pos.mpr h)] at hle
    exact absurd hsk (not_lt.mpr hle)
  . rw [crossing_le_iff_of_gt h (lt_of_mem_cuts hcut hk),
      crossing_le_iff_of_gt h (lt_of_mem_cuts hcut hlt), he] at hiff
    have hle := hiff.mp (le_refl _)
    rw [toRat_rampValue, toRat_rampValue, add_le_add_iff_left, div_le_div_iff_of_pos_right hn,
      mul_le_mul_left_of_neg (sub_neg.mpr h)] at hle
    exact absurd hsk (not_lt.mpr hle)

end Cut

section Piece

theorem toRat_valueAt_chord (y₀ y₁ : Exact) {n : Nat} (hn : 2 ≤ n) (i : Nat) :
    (Ramp.valueAt y₀ (y₀ + Number.ofNat n * (y₁ - y₀) / Number.ofNat (n - 1)) n i).toRat
      = y₀.toRat + i * (y₁.toRat - y₀.toRat) / (n - 1 : Nat) := by
  have h₀ : (n : ℚ) ≠ 0 := by
    have : n ≠ 0 := by omega
    exact_mod_cast this
  rw [Ramp.toRat_valueAt]
  simp only [Exact.toRat_add, Exact.toRat_sub, Exact.toRat_mul, Exact.toRat_div, Exact.toRat_ofNat]
  rw [add_sub_cancel_left]
  congr 1
  field_simp

/--
The chord from the first to the last value of a function that is on a line after its first value is
the function unless there are values in between and the first value is not on the line.
-/
theorem chord_eq_iff {f : Nat → ℚ} {u v : ℚ} {n : Nat} (hn : 2 ≤ n)
    (hf : ∀ i, 0 < i → i < n → f i = u + v * i) :
    (∀ i < n, f 0 + i * (f (n - 1) - f 0) / (n - 1 : Nat) = f i) ↔ (3 ≤ n → f 0 = u) := by
  have hl : ((n - 1 : Nat) : ℚ) ≠ 0 := by
    have : n - 1 ≠ 0 := by omega
    exact_mod_cast this
  have hlast := hf (n - 1) (by omega) (by omega)
  constructor
  . intro h hn
    have h₁ := h 1 (by omega)
    rw [hlast, hf 1 (by omega) (by omega)] at h₁
    have hm : ((n - 1 : Nat) : ℚ) - 1 ≠ 0 := by
      have : (1 : ℚ) < (n - 1 : Nat) := by
        have : 1 < n - 1 := by omega
        exact_mod_cast this
      linarith
    have : (f 0 - u) * (((n - 1 : Nat) : ℚ) - 1) = 0 := by
      field_simp at h₁
      push_cast at h₁
      linarith
    rcases mul_eq_zero.mp this with h | h
    . linarith
    . exact absurd h hm
  . intro h i hi
    rcases Nat.eq_zero_or_pos i with rfl | hpos
    . simp
    . by_cases h₂ : 3 ≤ n
      . rw [hlast, hf i hpos hi, h h₂]
        field_simp
        ring
      . have : i = n - 1 := by omega
        subst this
        field_simp
        ring

end Piece

section Pieces

variable {c : Calibration Exact} {a b : Exact} {n : Nat}

theorem sampleAt_piece_iff {start stop : Nat} (hc : c.Ascending) (hab : a ≠ b)
    (hcut : (start, stop) ∈ intervals (c.cuts a b n)) :
    (∀ i < stop - start, (c.piece a b n start stop).sampleAt i
        = ⟨[.float (c.interpolate (rampValue a b n (start + i)))]⟩)
      ↔ (start + 3 ≤ stop → c.interpolate (rampValue a b n start)
        = c.onward a b (rampValue a b n start)) := by
  have hlt := start_lt_of_mem_cuts hcut
  unfold piece
  dsimp only
  split
  . next h =>
    subst h
    constructor
    . intro _ h
      omega
    . intro _ i hi
      have : i = 0 := by omega
      subst this
      rfl
  . next h =>
    have hn : 2 ≤ stop - start := by omega
    obtain ⟨u, v, huv⟩ := exists_onward_eq hcut hab
    let f : Nat → ℚ := fun i => (c.interpolate (rampValue a b n (start + i))).toRat
    have hf : ∀ i, 0 < i → i < stop - start → f i = u + v * start + v * i := by
      intro i hi hl
      have hk : start + i < stop := by omega
      have hcont := isContinuousAt_of_inside hcut hab (k := start + i) (by omega) hk
      change (c.interpolate (rampValue a b n (start + i))).toRat = _
      rw [interpolate_eq_onward hc hcont a b, huv _ (by omega) hk, Nat.cast_add]
      ring
    have hlast : start + (stop - start - 1) = stop - 1 := by omega
    have hstart : c.interpolate (rampValue a b n start) = c.onward a b (rampValue a b n start)
        ↔ f 0 = u + v * start := by
      rw [← huv start (Nat.le_refl _) hlt, ← Exact.toRat_inj]
      rfl
    rw [hstart, show start + 3 ≤ stop ↔ 3 ≤ stop - start by omega, ← chord_eq_iff hn hf]
    refine forall₂_congr fun i hi => ?_
    rw [sampleAt_linear _ _ hi]
    simp only [Sample.mk.injEq, List.cons.injEq, Scalar.float.injEq, and_true]
    rw [← Exact.toRat_inj, toRat_valueAt_chord _ _ hn, ← hlast]
    rfl

/--
Whenever a piece of three or more ticks begins, the interpolation is already on the line that the
ramp follows from there on.
-/
def BeginsOnLines (c : Calibration Exact) (a b : Exact) (n : Nat) : Prop :=
  ∀ cut ∈ intervals (c.cuts a b n), cut.1 + 3 ≤ cut.2 →
    c.interpolate (rampValue a b n cut.1) = c.onward a b (rampValue a b n cut.1)

theorem beginsOnLines_of_isContinuousAt (hc : c.Ascending) (h : ∀ x, c.IsContinuousAt x)
    (a b : Exact) (n : Nat) : c.BeginsOnLines a b n :=
  fun _ _ _ => interpolate_eq_onward hc (h _) a b

/--
The pieces of a ramp are played one after the other, each at the ticks that it was cut from.
-/
theorem sampleAt_join_pieces (c : Calibration Exact) (a b : Exact) (n : Nat) :
    ∀ cut ∈ intervals (c.cuts a b n), ∀ i < cut.2 - cut.1,
      (join .float (c.pieces a b n)).sampleAt (cut.1 + i)
        = (c.piece a b n cut.1 cut.2).sampleAt i := by
  have hcuts := isPartition_exact c a b n
  have hlength : totalLength (c.pieces a b n) = n := by
    apply totalLength_of_intervals hcuts
    rw [pieces, List.forall₂_map_right_iff]
    exact List.forall₂_same.mpr fun cut _ => length_piece a b n cut.1 cut.2
  intro cut hcut i hi
  have hk := (hcuts.mem_intervals cut hcut).2.2
  rw [sampleAt_join typed_of_mem_pieces (by omega),
    ← sampleAtParts_map_intervals (f := fun cut => c.piece a b n cut.1 cut.2) hcuts
      (fun cut _ => length_piece a b n cut.1 cut.2) cut hcut i hi]
  rfl

theorem sampleAt_pieces_iff (hc : c.Ascending) (hab : a ≠ b) :
    (∀ k < n, (join .float (c.pieces a b n)).sampleAt k
        = ⟨[.float (c.interpolate (rampValue a b n k))]⟩) ↔ c.BeginsOnLines a b n := by
  have hcuts := isPartition_exact c a b n
  constructor
  . intro h cut hcut
    apply (sampleAt_piece_iff hc hab hcut).mp
    intro i hi
    have hk := (hcuts.mem_intervals cut hcut).2.2
    rw [← h (cut.1 + i) (by omega), sampleAt_join_pieces c a b n cut hcut i hi]
  . intro h k hk
    obtain ⟨cut, hcut, hs, he⟩ := hcuts.exists_mem_intervals (Nat.zero_le k) hk
    obtain ⟨i, rfl⟩ := Nat.exists_eq_add_of_le hs
    have hi : i < cut.2 - cut.1 := by omega
    rw [sampleAt_join_pieces c a b n cut hcut i hi]
    exact (sampleAt_piece_iff hc hab hcut).mpr (h cut hcut) i hi

theorem applyRamp_self (c : Calibration Exact) (a : Exact) (n : Nat) :
    c.applyRamp a a n = .ok (hold (.float (c.interpolate a)) n) := by
  unfold applyRamp
  exact if_pos (Exact.beq_iff.mpr rfl)

theorem applyRamp_of_ne (c : Calibration Exact) (hab : a ≠ b) (n : Nat) :
    c.applyRamp a b n = .ok (join .float (c.pieces a b n)) :=
  applyRamp_of_finite rfl rfl (Bool.eq_false_iff.mpr fun h => hab (Exact.beq_iff.mp h))

theorem length_pieces_le (c : Calibration Exact) (a b : Exact) (n : Nat) :
    (c.pieces a b n).length ≤ c.points.length + 1 := by
  have hcuts : (c.cuts a b n).length ≤ c.points.length + 2 := by
    refine Nat.le_trans (length_eraseReps_le _) ?_
    simp [inputs]
  simp only [pieces, intervals, List.length_map, List.length_zip, List.length_drop]
  omega

theorem parts_piece (c : Calibration Exact) (a b : Exact) (n start stop : Nat) :
    (c.piece a b n start stop).parts = [c.piece a b n start stop] := by
  unfold piece linear
  dsimp only
  split
  . rfl
  . split <;> rfl

theorem storedSize_piece_le (c : Calibration Exact) (a b : Exact) (n start stop : Nat) :
    (c.piece a b n start stop).storedSize ≤ 1 := by
  unfold piece linear
  dsimp only
  split
  . exact Nat.le_refl 1
  . split
    . exact Nat.zero_le 1
    . exact Nat.le_refl 1

theorem totalStoredSize_le {xs : List (Instruction Exact)} (h : ∀ x ∈ xs, x.storedSize ≤ 1) :
    totalStoredSize xs ≤ xs.length := by
  induction xs with
  | nil => exact Nat.le_refl 0
  | cons x xs ih =>
    obtain ⟨hx, h⟩ := List.forall_mem_cons.mp h
    rw [totalStoredSize, List.length_cons]
    have := ih h
    omega

/--
However long a ramp is, its calibration has few parts, each of which is one tick or a ramp.
-/
theorem size_pieces_le (c : Calibration Exact) (a b : Exact) (n : Nat) :
    (join .float (c.pieces a b n)).parts.length ≤ c.points.length + 1
      ∧ (join .float (c.pieces a b n)).storedSize ≤ c.points.length + 1 := by
  have hl := length_pieces_le c a b n
  constructor
  . have hparts : ((c.pieces a b n).flatMap parts).length = (c.pieces a b n).length := by
      rw [pieces, List.flatMap_map, List.flatMap_congr fun cut _ => parts_piece c a b n cut.1 cut.2]
      simp
    refine Nat.le_trans (length_parts_join_le typed_of_mem_pieces) ?_
    rw [hparts]
    exact Nat.max_le.mpr ⟨by omega, hl⟩
  . refine Nat.le_trans (storedSize_join_le _ _) (Nat.le_trans (totalStoredSize_le ?_) hl)
    intro x hx
    obtain ⟨cut, _, rfl⟩ := List.mem_map.mp hx
    exact storedSize_piece_le c a b n cut.1 cut.2

end Pieces

end Waveplan.Calibration
