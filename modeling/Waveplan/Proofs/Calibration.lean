import Waveplan.Proofs.Instruction.Bounds
import Waveplan.Proofs.Instruction.Node
import Waveplan.Calibration

/-!
This module contains calibrated instructions: they are floats in normal form, and if ramps are cut
inside of their ends they are as long as before and every tick is calibrated by itself, be it a
sample or a tick of a ramp.
-/

namespace Waveplan

variable {α : Type} [Number α]

/--
What is played at a tick once the samples are cast to floats.
-/
def Source.toFloat : Source α → Source α
  | written s => written ⟨s.values.map fun value => .float value.toFloat⟩
  | ramp r i => ramp r i

namespace Instruction

theorem sourceAt_asType_float {x y : Instruction α} (hx : x.Typed .bool)
    (h : x.asType .float = .ok y) {i : Nat} (hi : i < x.length) :
    y.sourceAt i = (x.sourceAt i).toFloat := by
  have ht : x.sampleType ≠ .float := by
    rw [hx.sampleType]
    decide
  induction x generalizing y i with
  | pattern p =>
    rw [asType, if_neg ht] at h
    obtain ⟨q, hq, rfl⟩ := Outcome.map_eq_ok_iff.mp h
    obtain ⟨_, _, hq⟩ := Outcome.bind_eq_ok_iff.mp hq
    cases hq
    have hp := normal_pattern.mp hx.normal
    have hk : p.columns.map Column.kind = [.bool] := by
      rw [hp.kinds, ← sampleType_pattern, hx.sampleType]
      rfl
    obtain ⟨column, hcolumn, hk⟩ := List.map_eq_singleton_iff.mp hk
    have hl := hp.lengths column (by rw [hcolumn]; exact List.mem_cons_self)
    cases column with
    | float values => contradiction
    | bool values =>
      have hi : i < values.length := by
        rw [length_pattern, ← hl] at hi
        exact hi
      simp [sourceAt, Source.toFloat, Pattern.sample, hcolumn, SampleType.float, SampleType.kinds,
        Column.cast, Column.get, Scalar.toFloat, hi]
  | ramp r =>
    have hr := (normal_ramp.mp hx.normal).1.isInterpolable
    rw [← sampleType_ramp, hx.sampleType] at hr
    contradiction
  | concatenated xs ih =>
    rw [asType, if_neg ht] at h
    obtain ⟨ys, hys, rfl⟩ := Outcome.map_eq_ok_iff.mp h
    rw [asTypeAll_eq, Outcome.mapM_eq_ok_iff] at hys
    rw [length_concatenated] at hi
    obtain ⟨htyped, hl⟩ := typed_of_forall₂ (Outcome.forall₂_imp_of_mem hys
      fun z hm w hw => typed_asType (hx.part hm).normal hw)
    rw [sourceAt_join htyped (by rw [hl]; exact hi), sourceAt]
    apply sourceAtParts_of_forall₂ (R := fun s t => t = s.toFloat) _ hi
    exact Outcome.forall₂_imp_of_mem hys fun z hm w hw =>
      ⟨(typed_asType (hx.part hm).normal hw).2, fun i hi => ih z hm (hx.part hm) hw hi
        (by rw [(hx.part hm).sampleType]; decide)⟩
  | repeated n body ih =>
    rw [asType, if_neg ht] at h
    obtain ⟨z, hz, rfl⟩ := Outcome.map_eq_ok_iff.mp h
    obtain ⟨_, hpos, _, hbody⟩ := normal_repeated.mp hx.normal
    obtain ⟨_, hl⟩ := typed_asType hbody hz
    rw [length_repeated, ← hl] at hi
    rw [sourceAt_times hi, sourceAt, hl]
    exact ih ⟨hbody, hx.sampleType⟩ hz (Nat.mod_lt i hpos) ht

end Instruction

namespace Calibration

open Instruction

variable {c : Calibration α} {N : Nat}

/--
What is played in place of a sample or a tick of a ramp once it is calibrated.
-/
def source (c : Calibration α) : Source α → Source α
  | .written s => .written ⟨s.values.map fun value => .float (c.interpolate value.toFloat)⟩
  | .ramp r i =>
    match r.start, r.stop with
    | [a], [b] =>
      match c.applyRamp a b r.length with
      | .ok y => y.sourceAt i
      | .error _ => .ramp r i
    | _, _ => .ramp r i

theorem source_toFloat (c : Calibration α) (s : Source α) : c.source s.toFloat = c.source s := by
  cases s with
  | written s => simp [source, Source.toFloat, Scalar.toFloat]
  | ramp r i => rfl

theorem eq_map_of_mapM_calibrate {values ws : List α} (h : values.mapM c.calibrate = .ok ws) :
    ws = values.map c.interpolate := by
  rw [Outcome.mapM_eq_ok_iff] at h
  induction h with
  | nil => rfl
  | cons hw _ ih =>
    unfold calibrate at hw
    split at hw
    . cases hw
      rw [List.map_cons, ih]
    . contradiction

theorem typed_piece (a b : α) (length start stop : Nat) :
    (c.piece a b length start stop).Typed .float := by
  unfold piece
  dsimp only
  split
  . exact typed_pattern (Pattern.wellFormed_ofFloats _)
  . exact typed_linear _ _ _

theorem length_piece (a b : α) (length start stop : Nat) :
    (c.piece a b length start stop).length = stop - start := by
  unfold piece
  dsimp only
  split
  . next h =>
    subst h
    rw [length_pattern, Pattern.ofFloats]
    simp
  . exact length_linear _ _ _

theorem rampsSatisfy_piece (a b : α) (length : Nat) {start stop : Nat} (h : stop - start ≤ N) :
    (c.piece a b length start stop).RampsSatisfy (·.length ≤ N) := by
  unfold piece
  dsimp only
  split
  . exact rampsSatisfy_pattern _
  . exact rampsSatisfy_linear h

section Ramp

variable {a b : α} {length : Nat} {y : Instruction α}

/--
The pieces of a ramp between the ticks at which it is cut.
-/
def pieces (c : Calibration α) (a b : α) (length : Nat) : List (Instruction α) :=
  (intervals (c.cuts a b length)).map fun cut => c.piece a b length cut.1 cut.2

theorem typed_of_mem_pieces : ∀ x ∈ c.pieces a b length, x.Typed .float := by
  intro x hx
  obtain ⟨cut, _, rfl⟩ := List.mem_map.mp hx
  exact typed_piece _ _ _ _ _

theorem applyRamp_ok (h : c.applyRamp a b length = .ok y) :
    (∃ value, y = .hold (.float value) length) ∨ y = join .float (c.pieces a b length) := by
  obtain ⟨value, _, h⟩ := Outcome.bind_eq_ok_iff.mp h
  obtain ⟨_, _, h⟩ := Outcome.bind_eq_ok_iff.mp h
  split at h
  . cases h
    exact .inl ⟨value, rfl⟩
  . right
    change (if (c.pieces a b length).isEmpty then _
      else (concatenate (c.pieces a b length)).mapError _) = _ at h
    split at h
    . next he =>
      cases h
      rw [List.isEmpty_iff.mp he]
      rfl
    . have h := Outcome.mapError_eq_ok_iff.mp h
      exact ((concatenate_eq_ok_iff fun x hx => (typed_of_mem_pieces x hx).sampleType).mp h).2

theorem typed_applyRamp (h : c.applyRamp a b length = .ok y) : y.Typed .float := by
  rcases applyRamp_ok h with ⟨value, rfl⟩ | rfl
  . exact typed_hold _ _
  . exact typed_join typed_of_mem_pieces

/--
Calibration cuts a ramp into pieces where both ends are finite and not the same.
-/
theorem applyRamp_of_finite (ha : Number.isFinite a = true) (hb : Number.isFinite b = true)
    (hab : (a == b) = false) :
    c.applyRamp a b length = .ok (join .float (c.pieces a b length)) := by
  unfold applyRamp calibrate
  rw [if_pos ha, if_pos hb, hab]
  change (if (c.pieces a b length).isEmpty then _
    else (concatenate (c.pieces a b length)).mapError _) = _
  split
  . next h =>
    rw [List.isEmpty_iff.mp h]
    rfl
  . next h =>
    rw [Outcome.mapError_eq_ok_iff, concatenate_eq_ok_iff fun x hx =>
      (typed_of_mem_pieces x hx).sampleType]
    exact ⟨fun he => h (List.isEmpty_iff.mpr he), rfl⟩

/--
The cuts go as far as the last measured input is reached, be it behind the end of the ramp.
-/
theorem isPartition_cuts_of_last {last : Nat} (hl : length ≤ last)
    (hlast : last = length ∨ ∃ x ∈ c.inputs, crossing a b length x = last)
    (h : ∀ x ∈ c.inputs, crossing a b length x ≤ last) :
    IsPartition 0 last (c.cuts a b length) := by
  apply IsPartition.eraseReps
  . exact pairwise_mergeSort_le _
  . simp
  . rcases hlast with rfl | ⟨x, hx, rfl⟩
    . simp
    . exact List.mem_mergeSort.mpr (List.mem_append_left _ (List.mem_map_of_mem hx))
  . intro i hi
    refine ⟨Nat.zero_le i, ?_⟩
    rcases List.mem_append.mp (List.mem_mergeSort.mp hi) with hi | hi
    . obtain ⟨x, hx, rfl⟩ := List.mem_map.mp hi
      exact h x hx
    . simp at hi
      omega

theorem isPartition_cuts (h : ∀ x ∈ c.inputs, crossing a b length x ≤ length) :
    IsPartition 0 length (c.cuts a b length) :=
  isPartition_cuts_of_last (Nat.le_refl _) (.inl rfl) h

theorem length_join_pieces {last : Nat} (h : IsPartition 0 last (c.cuts a b length)) :
    (join .float (c.pieces a b length)).length = last := by
  rw [length_join, totalLength_of_intervals h, Nat.sub_zero]
  rw [pieces, List.forall₂_map_right_iff]
  exact List.forall₂_same.mpr fun cut _ => length_piece _ _ _ _ _

theorem applyRamp_of_crossing_le (hc : ∀ x ∈ c.inputs, crossing a b length x ≤ length)
    (h : c.applyRamp a b length = .ok y) :
    y.length = length ∧ y.RampsSatisfy (·.length ≤ length) := by
  have hcuts := isPartition_cuts hc
  rcases applyRamp_ok h with ⟨value, rfl⟩ | rfl
  . exact ⟨length_hold _ _, rampsSatisfy_hold _ _⟩
  . refine ⟨length_join_pieces hcuts, ?_⟩
    apply rampsSatisfy_join
    intro x hx
    obtain ⟨cut, hm, rfl⟩ := List.mem_map.mp hx
    have := hcuts.mem_intervals cut hm
    exact rampsSatisfy_piece _ _ _ (by omega)

end Ramp

theorem apply_of_asType {x z : Instruction α} (hz : x.asType .float = .ok z) :
    c.apply x = c.applyFloat z := by
  rw [apply, hz]
  rfl

theorem applyFloat_concatenated_ok {xs : List (Instruction α)} {y : Instruction α}
    (htyped : ∀ x ∈ xs, ∀ z, c.applyFloat x = .ok z → z.Typed .float)
    (h : c.applyFloat (concatenated xs) = .ok y) :
    ∃ ys, List.Forall₂ (fun x z => c.applyFloat x = .ok z ∧ z.Typed .float) xs ys
      ∧ y = join .float ys := by
  rw [applyFloat] at h
  obtain ⟨ys, hys, h⟩ := Outcome.bind_eq_ok_iff.mp h
  rw [applyFloatAll_eq, Outcome.mapM_eq_ok_iff] at hys
  have hall : List.Forall₂ (fun x z => c.applyFloat x = .ok z ∧ z.Typed .float) xs ys :=
    Outcome.forall₂_imp_of_mem hys fun x hm z hz => ⟨hz, htyped x hm z hz⟩
  refine ⟨ys, hall, ?_⟩
  have hall := Outcome.forall_mem_of_forall₂ (hall.imp fun _ _ h => h.2)
  exact ((concatenate_eq_ok_iff fun z hz => (hall z hz).sampleType).mp
    (Outcome.mapError_eq_ok_iff.mp h)).2

theorem typed_applyFloat {x y : Instruction α} (h : c.applyFloat x = .ok y) : y.Typed .float := by
  induction x generalizing y with
  | pattern p =>
    rw [applyFloat] at h
    split at h
    . obtain ⟨values, _, h⟩ := Outcome.bind_eq_ok_iff.mp h
      cases h
      exact typed_pattern (Pattern.wellFormed_ofFloats _)
    . contradiction
  | ramp r =>
    rw [applyFloat] at h
    split at h
    . exact typed_applyRamp h
    . contradiction
  | concatenated xs ih =>
    obtain ⟨ys, hys, rfl⟩ := applyFloat_concatenated_ok (fun x hm z hz => ih x hm hz) h
    exact typed_join (Outcome.forall_mem_of_forall₂ (hys.imp fun _ _ h => h.2))
  | repeated n body ih =>
    rw [applyFloat] at h
    obtain ⟨z, hz, rfl⟩ := Outcome.map_eq_ok_iff.mp h
    exact typed_times (ih hz) n

/--
An instruction that has been calibrated tick by tick, its ramps having at most `N` ticks.
-/
structure IsCalibrated (c : Calibration α) (N : Nat) (x y : Instruction α) : Prop where
  typed : y.Typed .float
  length : y.length = x.length
  ramps : y.RampsSatisfy (·.length ≤ N)
  sourceAt : ∀ i < x.length, y.sourceAt i = c.source (x.sourceAt i)

theorem isCalibrated_applyFloat (hc : ∀ (a b x : α) (n : Nat), n ≤ N → crossing a b n x ≤ n)
    {x y : Instruction α} (hx : x.Normal) (hr : x.RampsSatisfy (·.length ≤ N))
    (h : c.applyFloat x = .ok y) : c.IsCalibrated N x y := by
  have htyped := typed_applyFloat h
  induction x generalizing y with
  | pattern p =>
    rw [applyFloat] at h
    split at h
    . next values hv =>
      obtain ⟨calibrated, hcal, h⟩ := Outcome.bind_eq_ok_iff.mp h
      cases h
      have hp := (normal_pattern.mp hx).lengths (.float values) (by rw [hv]; simp)
      change values.length = p.length at hp
      rw [eq_map_of_mapM_calibrate hcal] at htyped ⊢
      refine ⟨htyped, ?_, rampsSatisfy_pattern _, ?_⟩
      . rw [length_pattern, length_pattern, Pattern.ofFloats, List.length_map, hp]
      . intro i hi
        rw [length_pattern, ← hp] at hi
        simp [Instruction.sourceAt, source, Pattern.sample, Pattern.ofFloats, hv, Column.get,
          Scalar.toFloat, hi]
    . contradiction
  | ramp r =>
    rw [applyFloat] at h
    split at h
    . next a b ha hb =>
      have hr := rampsSatisfy_ramp.mp hr
      obtain ⟨hl, hramps⟩ := applyRamp_of_crossing_le (fun x _ => hc a b x _ hr) h
      refine ⟨htyped, hl.trans (length_ramp r).symm,
        hramps.imp fun _ hs => Nat.le_trans hs hr, ?_⟩
      intro i _
      simp only [Instruction.sourceAt, source, ha, hb, h]
    . contradiction
  | concatenated xs ih =>
    obtain ⟨ys, hys, rfl⟩ := applyFloat_concatenated_ok (fun x _ z hz => typed_applyFloat hz) h
    obtain ⟨_, _, hparts⟩ := normal_concatenated.mp hx
    have hr := rampsSatisfy_concatenated.mp hr
    have hall := Outcome.forall₂_imp_of_mem hys fun x hm y hy =>
      ih x hm (hparts x hm).normal (hr x hm) hy.1 hy.2
    obtain ⟨hts, hl⟩ := typed_of_forall₂ (hall.imp fun _ _ h => ⟨h.typed, h.length⟩)
    refine ⟨htyped, by rw [length_join, hl, length_concatenated], ?_, ?_⟩
    . exact rampsSatisfy_join _ (Outcome.forall_mem_of_forall₂ (hall.imp fun _ _ h => h.ramps))
    . intro i hi
      rw [length_concatenated] at hi
      rw [sourceAt_join hts (by rw [hl]; exact hi), Instruction.sourceAt]
      exact sourceAtParts_of_forall₂ (R := fun s t => t = c.source s)
        (hall.imp fun _ _ h => ⟨h.length, h.sourceAt⟩) hi
  | repeated n body ih =>
    rw [applyFloat] at h
    obtain ⟨z, hz, rfl⟩ := Outcome.map_eq_ok_iff.mp h
    obtain ⟨_, hpos, _, hbody⟩ := normal_repeated.mp hx
    have hz := ih hbody (rampsSatisfy_repeated.mp hr) hz (typed_applyFloat hz)
    refine ⟨htyped, by rw [length_times, length_repeated, hz.length],
      rampsSatisfy_times hz.ramps n, ?_⟩
    intro i hi
    rw [length_repeated, ← hz.length] at hi
    rw [sourceAt_times hi, Instruction.sourceAt, hz.length]
    exact hz.sourceAt _ (Nat.mod_lt i hpos)

theorem apply_ok {x y : Instruction α} (h : c.apply x = .ok y) :
    ∃ z, x.asType .float = .ok z ∧ c.applyFloat z = .ok y := by
  obtain ⟨z, hz, h⟩ := Outcome.bind_eq_ok_iff.mp h
  exact ⟨z, Outcome.mapError_eq_ok_iff.mp hz, h⟩

theorem typed_apply {x y : Instruction α} (h : c.apply x = .ok y) : y.Typed .float := by
  obtain ⟨z, _, h⟩ := apply_ok h
  exact typed_applyFloat h

theorem isCalibrated_apply (hc : ∀ (a b x : α) (n : Nat), n ≤ N → crossing a b n x ≤ n)
    {kind : ScalarKind} {x y : Instruction α} (hx : x.Typed (.scalar kind))
    (hr : x.RampsSatisfy (·.length ≤ N)) (h : c.apply x = .ok y) : c.IsCalibrated N x y := by
  obtain ⟨z, hz, h⟩ := apply_ok h
  obtain ⟨ht, hl⟩ := typed_asType hx.normal hz
  have hy := isCalibrated_applyFloat hc ht.normal (rampsSatisfy_asType hr hz) h
  refine ⟨hy.typed, hy.length.trans hl, hy.ramps, ?_⟩
  intro i hi
  rw [hy.sourceAt i (by rw [hl]; exact hi)]
  cases kind with
  | bool => rw [sourceAt_asType_float hx hz hi, source_toFloat]
  | float =>
    cases (asType_eq_self hx.sampleType).symm.trans hz
    rfl

end Calibration

end Waveplan
