import Waveplan.Proofs.Calibration.Ramp
import Waveplan.Proofs.Instruction.Recast
import Waveplan.Proofs.Instruction.Size

/-!
This module contains that calibrating an instruction is calibrating its samples, as long as the
output does not jump, and that it only cuts the ramps of the instruction, each into few pieces.
-/

namespace Waveplan

open Instruction

section Cast

variable {α : Type} [Number α]

/--
The values of a sample as floats.
-/
def Sample.toFloats (s : Sample α) : Sample α := ⟨s.values.map fun value => .float value.toFloat⟩

theorem Instruction.kinds_sampleAt {x : Instruction α} (hx : x.Normal) {i : Nat}
    (hi : i < x.length) : (x.sampleAt i).values.map Scalar.kind = x.sampleType.kinds := by
  have h : (fun c : Column α => (c.get i).kind) = Column.kind :=
    funext fun c => Column.kind_get c i
  rw [← sample_toPattern hx hi, ← sampleType_toPattern hx, ← (wellFormed_toPattern hx).kinds,
    Pattern.sample, List.map_map, Function.comp_def, h]

theorem Instruction.exists_sampleAt_eq {x : Instruction α} (hx : x.Typed .float) {i : Nat}
    (hi : i < x.length) : ∃ v, x.sampleAt i = ⟨[.float v]⟩ := by
  have hk := kinds_sampleAt hx.normal hi
  rw [hx.sampleType] at hk
  obtain ⟨value, hv, hkind⟩ := List.map_eq_singleton_iff.mp hk
  cases value with
  | bool b => contradiction
  | float v => exact ⟨v, by rw [← hv]⟩

theorem Pattern.exists_cast_float {p : Pattern α} (hp : p.WellFormed)
    (hw : p.sampleType.width = 1) :
    ∃ q, p.cast .float = .ok q ∧ ∀ i, q.sample i = (p.sample i).toFloats := by
  have hl : p.columns.length = 1 := hp.length_columns.trans hw
  obtain ⟨column, hcolumn⟩ := List.length_eq_one_iff.mp hl
  refine ⟨_, Outcome.bind_eq_ok_iff.mpr ⟨(), SampleType.checkCast_eq_ok_iff.mpr hw, rfl⟩, ?_⟩
  intro i
  rw [Pattern.sample, Pattern.sample, hcolumn]
  cases column with
  | bool values =>
    by_cases h : i < values.length
      <;> simp [SampleType.float, SampleType.kinds, Column.cast, Column.get, Scalar.toFloat,
        Sample.toFloats, h]
  | float values => rfl

theorem Ramp.exists_cast_float {r : Ramp α} (hw : r.sampleType.width = 1) :
    ∃ s, r.cast .float = .ok s ∧ ∀ i, s.sample i = (r.sample i).toFloats := by
  refine ⟨_, Outcome.bind_eq_ok_iff.mpr ⟨(), SampleType.checkCast_eq_ok_iff.mpr hw, rfl⟩, ?_⟩
  intro i
  rw [Ramp.sample, Ramp.sample, Sample.toFloats, List.map_map]
  rfl

theorem Instruction.exists_asType_float {x : Instruction α} (hx : x.Normal)
    (hw : x.sampleType.width = 1) :
    ∃ y, x.asType .float = .ok y ∧ ∀ i < x.length, y.sampleAt i = (x.sampleAt i).toFloats := by
  by_cases ht : x.sampleType = .float
  . refine ⟨x, asType_eq_self ht, fun i hi => ?_⟩
    obtain ⟨v, hv⟩ := exists_sampleAt_eq ⟨hx, ht⟩ hi
    rw [hv]
    rfl
  . induction x with
    | pattern p =>
      obtain ⟨q, hq, hs⟩ := Pattern.exists_cast_float (normal_pattern.mp hx) hw
      rw [asType, if_neg ht, hq]
      exact ⟨_, rfl, fun i _ => hs i⟩
    | ramp r =>
      obtain ⟨s, hs, hsample⟩ := Ramp.exists_cast_float (r := r) hw
      rw [asType, if_neg ht, hs]
      exact ⟨_, rfl, fun i _ => hsample i⟩
    | concatenated xs ih =>
      obtain ⟨_, _, hparts⟩ := normal_concatenated.mp hx
      rw [sampleType_concatenated] at hw ht
      have hpart : ∀ x ∈ xs, ∃ y, x.asType .float = .ok y ∧ y.Typed .float
          ∧ y.length = x.length ∧ ∀ i < x.length, y.sampleAt i = (x.sampleAt i).toFloats := by
        intro x hm
        have htype := (hparts x hm).sampleType
        obtain ⟨y, hy, hs⟩ := ih x hm (hparts x hm).normal (htype ▸ hw) (htype ▸ ht)
        obtain ⟨hty, hl⟩ := typed_asType (hparts x hm).normal hy
        exact ⟨y, hy, hty, hl, hs⟩
      obtain ⟨ys, hys, hall⟩ := Outcome.exists_mapM_eq_ok hpart
      rw [asType, sampleType_concatenated, if_neg ht, asTypeAll_eq, hys]
      obtain ⟨hts, hl⟩ := typed_of_forall₂ (hall.imp fun _ _ h => ⟨h.1, h.2.1⟩)
      refine ⟨_, rfl, fun i hi => ?_⟩
      rw [length_concatenated] at hi
      rw [sampleAt_join hts (by rw [hl]; exact hi), sampleAt]
      exact sampleAtParts_of_forall₂ (hall.imp fun _ _ h => h.2) hi
    | repeated n body ih =>
      obtain ⟨_, hpos, _, hbody⟩ := normal_repeated.mp hx
      rw [sampleType_repeated] at hw ht
      obtain ⟨z, hz, hs⟩ := ih hbody hw ht
      obtain ⟨_, hl⟩ := typed_asType hbody hz
      rw [asType, sampleType_repeated, if_neg ht, hz]
      refine ⟨_, rfl, fun i hi => ?_⟩
      rw [length_repeated, ← hl] at hi
      rw [sampleAt_times hi, sampleAt, hl]
      exact hs _ (Nat.mod_lt i hpos)

end Cast

namespace Calibration

/--
The sample with every value calibrated by itself, as a float.
-/
def calibrated {α : Type} [Number α] (c : Calibration α) (s : Sample α) : Sample α :=
  ⟨s.values.map fun value => .float (c.interpolate value.toFloat)⟩

variable {c : Calibration Exact}

theorem calibrated_toFloats (c : Calibration Exact) (s : Sample Exact) :
    c.calibrated s.toFloats = c.calibrated s := by
  simp [calibrated, Sample.toFloats, Scalar.toFloat]

theorem calibrate_eq (c : Calibration Exact) (x : Exact) :
    c.calibrate x = .ok (c.interpolate x) := rfl

theorem exists_applyFloat_pattern (c : Calibration Exact) {p : Pattern Exact} (hp : p.WellFormed)
    (ht : p.sampleType = .float) :
    ∃ y, c.applyFloat (.pattern p) = .ok y ∧ y.length = p.length
      ∧ ∀ i < p.length, y.sampleAt i = c.calibrated (p.sample i) := by
  have hk := hp.kinds
  rw [ht] at hk
  obtain ⟨column, hcolumn, hkind⟩ := List.map_eq_singleton_iff.mp hk
  cases column with
  | bool values => contradiction
  | float values =>
    have hl : values.length = p.length := hp.lengths (.float values) (by simp [hcolumn])
    have hm : values.mapM c.calibrate = .ok (values.map c.interpolate) := by
      rw [Outcome.mapM_eq_ok_iff, List.forall₂_map_right_iff, List.forall₂_same]
      exact fun x _ => c.calibrate_eq x
    rw [applyFloat, hcolumn]
    dsimp only
    rw [hm]
    refine ⟨_, rfl, ?_, fun i hi => ?_⟩
    . rw [length_pattern, Pattern.ofFloats, List.length_map, hl]
    . rw [← hl] at hi
      simp [sampleAt, Pattern.sample, Pattern.ofFloats, hcolumn, Column.get, calibrated,
        Scalar.toFloat, hi]

theorem sampleAt_applyRamp (hc : c.Ascending) (h : ∀ x, c.IsContinuousAt x) {a b : Exact} {n : Nat}
    {y : Instruction Exact} (hy : c.applyRamp a b n = .ok y) :
    ∀ i < n, y.sampleAt i = ⟨[.float (c.interpolate (rampValue a b n i))]⟩ := by
  by_cases hab : a = b
  . subst hab
    cases (c.applyRamp_self a n).symm.trans hy
    intro i hi
    rw [sampleAt_hold _ hi, rampValue_self]
  . cases (c.applyRamp_of_ne hab n).symm.trans hy
    exact (sampleAt_pieces_iff hc hab).mpr (beginsOnLines_of_isContinuousAt hc h a b n)

theorem exists_applyRamp (c : Calibration Exact) (a b : Exact) (n : Nat) :
    ∃ y, c.applyRamp a b n = .ok y := by
  by_cases hab : a = b
  . subst hab
    exact ⟨_, c.applyRamp_self a n⟩
  . exact ⟨_, c.applyRamp_of_ne hab n⟩

/--
What calibration makes of a single value and of the ticks of a ramp, it makes of every sample of an
instruction.
-/
theorem exists_applyFloat_rel {R : Sample Exact → Sample Exact → Prop}
    (hvalue : ∀ v, R ⟨[.float v]⟩ ⟨[.float (c.interpolate v)]⟩)
    (hramp : ∀ a b n y, c.applyRamp a b n = .ok y →
      ∀ i < n, R ⟨[.float (rampValue a b n i)]⟩ (y.sampleAt i))
    {x : Instruction Exact} (hx : x.Typed .float) :
    ∃ y, c.applyFloat x = .ok y ∧ y.length = x.length
      ∧ ∀ i < x.length, R (x.sampleAt i) (y.sampleAt i) := by
  induction x with
  | pattern p =>
    obtain ⟨y, hy, hl, hs⟩ :=
      c.exists_applyFloat_pattern (normal_pattern.mp hx.normal) hx.sampleType
    refine ⟨y, hy, hl, fun i hi => ?_⟩
    obtain ⟨v, hv⟩ := exists_sampleAt_eq hx hi
    rw [hs i hi, ← sampleAt, hv]
    exact hvalue v
  | ramp r =>
    obtain ⟨hr, _⟩ := normal_ramp.mp hx.normal
    have hw : r.sampleType.width = 1 := congrArg SampleType.width hx.sampleType
    obtain ⟨a, ha⟩ := List.length_eq_one_iff.mp (hr.start.trans hw)
    obtain ⟨b, hb⟩ := List.length_eq_one_iff.mp (hr.stop.trans hw)
    obtain ⟨y, hy⟩ := c.exists_applyRamp a b r.length
    rw [applyFloat, ha, hb]
    refine ⟨y, hy, (applyRamp_of_crossing_le (fun x _ => crossing_le a b x _) hy).1, ?_⟩
    intro i hi
    have hsample : (ramp r).sampleAt i = ⟨[.float (rampValue a b r.length i)]⟩ := by
      rw [sampleAt, Ramp.sample, Ramp.valuesAt, ha, hb, rampValue_eq]
      rfl
    rw [hsample]
    exact hramp a b r.length y hy i hi
  | concatenated xs ih =>
    have hpart : ∀ x ∈ xs, ∃ y, c.applyFloat x = .ok y ∧ y.Typed .float ∧ y.length = x.length
        ∧ ∀ i < x.length, R (x.sampleAt i) (y.sampleAt i) := by
      intro x hm
      obtain ⟨y, hy, h⟩ := ih x hm (hx.part hm)
      exact ⟨y, hy, typed_applyFloat hy, h⟩
    obtain ⟨ys, hys, hall⟩ := Outcome.exists_mapM_eq_ok hpart
    obtain ⟨hts, htotal⟩ := typed_of_forall₂ (hall.imp fun _ _ h => ⟨h.1, h.2.1⟩)
    have hne := ne_nil_of_forall₂ hx.normal hall
    refine ⟨join .float ys, ?_, by rw [length_join, htotal, length_concatenated], ?_⟩
    . rw [applyFloat, applyFloatAll_eq, hys]
      exact Outcome.mapError_eq_ok_iff.mpr
        ((concatenate_eq_ok_iff fun y hy => (hts y hy).sampleType).mpr ⟨hne, rfl⟩)
    . intro i hi
      rw [length_concatenated] at hi
      rw [sampleAt_join hts (by rw [htotal]; exact hi), sampleAt]
      exact sampleAtParts_rel_of_forall₂ (hall.imp fun _ _ h => h.2) hi
  | repeated n body ih =>
    obtain ⟨_, hpos, _, _⟩ := normal_repeated.mp hx.normal
    obtain ⟨z, hz, hl, hs⟩ := ih hx.body
    rw [applyFloat, hz]
    refine ⟨_, rfl, by rw [length_times, length_repeated, hl], fun i hi => ?_⟩
    rw [length_repeated, ← hl] at hi
    rw [sampleAt_times hi, sampleAt, hl]
    exact hs _ (Nat.mod_lt i hpos)

theorem exists_applyFloat (hc : c.Ascending) (h : ∀ x, c.IsContinuousAt x) {x : Instruction Exact}
    (hx : x.Typed .float) :
    ∃ y, c.applyFloat x = .ok y ∧ y.length = x.length
      ∧ ∀ i < x.length, y.sampleAt i = c.calibrated (x.sampleAt i) :=
  exists_applyFloat_rel (R := fun s t => t = c.calibrated s) (fun _ => rfl)
    (fun _ _ _ _ hy => sampleAt_applyRamp hc h hy) hx

end Calibration

section Size

mutual

/--
How much is stored of an instruction if each of its ramps is cut into `n` pieces.
-/
def Instruction.cutSize {α : Type} (n : Nat) : Instruction α → Nat
  | .pattern p => p.length
  | .ramp _ => n
  | .concatenated xs => Instruction.totalCutSize n xs
  | .repeated _ body => body.cutSize n

def Instruction.totalCutSize {α : Type} (n : Nat) : List (Instruction α) → Nat
  | [] => 0
  | x :: xs => x.cutSize n + Instruction.totalCutSize n xs

end

theorem Instruction.totalCutSize_map {α β : Type} {f : Instruction α → Instruction β}
    {xs : List (Instruction α)} {n : Nat} (h : ∀ x ∈ xs, (f x).cutSize n = x.cutSize n) :
    totalCutSize n (xs.map f) = totalCutSize n xs := by
  induction xs with
  | nil => rfl
  | cons x xs ih =>
    obtain ⟨hx, h⟩ := List.forall_mem_cons.mp h
    rw [List.map_cons, totalCutSize, totalCutSize, hx, ih h]

theorem Instruction.cutSize_recast {α : Type} [Number α] (t : SampleType) (x : Instruction α)
    (n : Nat) : (recast t x).cutSize n = x.cutSize n := by
  induction x with
  | pattern p => rfl
  | ramp r => rfl
  | concatenated xs ih =>
    rw [recast, recastAll_eq, cutSize, cutSize]
    exact totalCutSize_map ih
  | repeated m body ih => rw [recast, cutSize, cutSize, ih]

end Size

namespace Calibration

variable {c : Calibration Exact}

theorem size_hold (value : Exact) (n : Nat) :
    (hold (.float value) n).parts.length = 1 ∧ (hold (.float value) n).storedSize ≤ 1 := by
  unfold hold times
  dsimp only
  split
  . exact ⟨rfl, Nat.zero_le 1⟩
  . split <;> exact ⟨rfl, Nat.le_refl 1⟩

theorem size_applyRamp_le {a b : Exact} {n : Nat} {y : Instruction Exact}
    (hy : c.applyRamp a b n = .ok y) :
    y.parts.length ≤ c.points.length + 1 ∧ y.storedSize ≤ c.points.length + 1 := by
  by_cases hab : a = b
  . subst hab
    cases (c.applyRamp_self a n).symm.trans hy
    obtain ⟨hp, hs⟩ := size_hold (c.interpolate a) n
    exact ⟨by omega, by omega⟩
  . cases (c.applyRamp_of_ne hab n).symm.trans hy
    exact c.size_pieces_le a b n

theorem size_applyFloat_ramp_le {r : Ramp Exact} {y : Instruction Exact}
    (hy : c.applyFloat (.ramp r) = .ok y) :
    y.parts.length ≤ c.points.length + 1 ∧ y.storedSize ≤ c.points.length + 1 := by
  rw [applyFloat] at hy
  split at hy
  . exact size_applyRamp_le hy
  . contradiction

/--
Nothing besides the pieces of ramps is added by a calibration, wherever in a tree the ramps are.
-/
theorem storedSize_applyFloat_le {x y : Instruction Exact} (hx : x.Typed .float)
    (hy : c.applyFloat x = .ok y) : y.storedSize ≤ x.cutSize (c.points.length + 1) := by
  induction x generalizing y with
  | pattern p =>
    -- a pattern stays a pattern, as long as before
    rw [applyFloat] at hy
    split at hy
    . next values hv =>
      obtain ⟨calibrated, hm, hy⟩ := Outcome.bind_eq_ok_iff.mp hy
      cases hy
      have hl := (Outcome.mapM_eq_ok_iff.mp hm).length_eq
      have hp := (normal_pattern.mp hx.normal).lengths (.float values) (by simp [hv])
      rw [storedSize, cutSize, ← hp]
      exact Nat.le_of_eq hl.symm
    . contradiction
  | ramp r =>
    rw [cutSize]
    exact (size_applyFloat_ramp_le hy).2
  | concatenated xs ih =>
    obtain ⟨ys, hys, rfl⟩ := applyFloat_concatenated_ok (fun _ _ _ hz => typed_applyFloat hz) hy
    have hall := Outcome.forall₂_imp_of_mem hys fun x hm y hy => ih x hm (hx.part hm) hy.1
    rw [cutSize]
    apply Nat.le_trans (storedSize_join_le _ _)
    clear hys ih hy hx
    induction hall with
    | nil => exact Nat.le_refl 0
    | cons h _ ih => exact Nat.add_le_add h ih
  | repeated n body ih =>
    rw [applyFloat] at hy
    obtain ⟨z, hz, rfl⟩ := Outcome.map_eq_ok_iff.mp hy
    rw [cutSize]
    exact Nat.le_trans (storedSize_times_le z n) (ih hx.body hz)

theorem exists_apply_of_isContinuousAt (hc : c.Ascending) (h : ∀ x, c.IsContinuousAt x)
    {x : Instruction Exact} (hx : x.Normal) (hw : x.width = 1) :
    ∃ y, c.apply x = .ok y ∧ c.applyFloat (recast .float x) = .ok y ∧ y.length = x.length
      ∧ ∀ i < x.length, y.sampleAt i = c.calibrated (x.sampleAt i) := by
  obtain ⟨z, hz, hcast⟩ := exists_asType_float hx hw
  obtain ⟨ht, hl⟩ := typed_asType hx hz
  obtain ⟨y, hy, hly, hs⟩ := exists_applyFloat hc h ht
  cases hz.symm.trans (asType_eq_ok hx hw fun _ _ => rfl)
  refine ⟨y, (apply_of_asType hz).trans hy, hy, hly.trans hl, fun i hi => ?_⟩
  rw [hs i (by rw [hl]; exact hi), hcast i hi, calibrated_toFloats]

/--
Calibrating an instruction of one channel with points at different inputs is calibrating its
samples. The calibration of a ramp does not grow with the ramp, wherever in the tree it is.
-/
theorem exists_apply {points : List (Exact × Exact)} (h : ofPoints points = .ok c)
    (hp : (points.map Prod.fst).Nodup) {x : Instruction Exact} (hx : x.Normal)
    (hw : x.width = 1) :
    ∃ y, c.apply x = .ok y ∧ y.length = x.length
      ∧ (∀ i < x.length, y.sampleAt i = c.calibrated (x.sampleAt i))
      ∧ (x.RampsSatisfy fun r => ∃ z, c.apply (.ramp r) = .ok z
        ∧ z.parts.length ≤ points.length + 1 ∧ z.storedSize ≤ points.length + 1)
      ∧ y.storedSize ≤ x.cutSize (points.length + 1) := by
  have hperm := perm_points h
  have hc := ascending_ofPoints h
  have hcont : ∀ x, c.IsContinuousAt x :=
    isContinuousAt_of_nodup ((hperm.map Prod.fst).nodup_iff.mpr hp)
  rw [← hperm.length_eq]
  obtain ⟨y, hy, hyf, hl, hs⟩ := exists_apply_of_isContinuousAt hc hcont hx hw
  refine ⟨y, hy, hl, hs, fun r hr => ?_, ?_⟩
  . have htr := typed_of_isNode hx.typed hr
    have hwr : (ramp r).width = 1 := (congrArg SampleType.width htr.sampleType).trans hw
    obtain ⟨z, hz, hzf, _⟩ := exists_apply_of_isContinuousAt hc hcont htr.normal hwr
    exact ⟨z, hz, size_applyFloat_ramp_le hzf⟩
  . have ht : (recast .float x).Typed .float := typed_recast hx hw fun _ _ => rfl
    have hle := storedSize_applyFloat_le ht hyf
    rwa [cutSize_recast] at hle

def tent : Calibration Exact :=
  ⟨[(Number.ofNat 0, Number.ofNat 0), (Number.ofNat 1, Number.ofNat 5),
    (Number.ofNat 2, Number.ofNat 1)]⟩

/--
Two periods of a high level for one tick and a fall over four ticks.
-/
def sawtooth : Instruction Exact :=
  .repeated 2 (.concatenated [.pattern (.ofFloats [Number.ofNat 3]),
    .ramp ⟨.float, [Number.ofNat 2], [Number.ofNat 0], 4⟩])

theorem normal_sawtooth : sawtooth.Normal := by
  refine normal_repeated.mpr ⟨Nat.le_refl 2, by decide, by simp, ?_⟩
  refine normal_concatenated_pair (t := .float) ?_ ?_ (by simp [isPattern])
  . exact ⟨normal_pattern.mpr (Pattern.wellFormed_ofFloats _), by decide, rfl, by simp⟩
  . exact ⟨normal_ramp.mpr ⟨⟨rfl, rfl, rfl⟩, by decide⟩, by decide, rfl, by simp⟩

theorem exists_apply_sawtooth :
    ∃ y, tent.apply sawtooth = .ok y ∧ y.length = 10
      ∧ y.sampleAt 8 = ⟨[.float (Number.ofNat 5)]⟩ ∧ y.storedSize ≤ 1 + 4 := by
  obtain ⟨y, hy, hl, hs, _, hsize⟩ := exists_apply (ofPoints_points (c := tent) (by decide) (by decide))
    (by decide) normal_sawtooth rfl
  refine ⟨y, hy, hl, ?_, hsize⟩
  rw [hs 8 (by decide)]
  have : tent.interpolate (Ramp.valueAt (Number.ofNat 2) (Number.ofNat 0) 4 2)
      = Number.ofNat 5 := by decide +kernel
  exact congrArg (fun v => (⟨[.float v]⟩ : Sample Exact)) this

end Calibration

end Waveplan
