import Waveplan.Formula.Kernel
import Waveplan.Proofs.Lane.Analog
import Waveplan.Proofs.Shot.Sequencers

/-!
This module contains that the ticks that are asked for around an output do not change what it plays
at the ticks of the shot, nor at those around it that are asked for in any case.
-/

namespace Waveplan.ShotContext

open Instruction

variable {α : Type} [Number α] [Kernel α] {c : ShotContext α} {step : TimeStep}
  {compile : String → Compilation α (Instruction α)} {p : Progress α}

/--
What an output plays does not depend on the ticks that are asked for around the shot, and an advance
followed by as long a delay leaves an output as it is: nothing is counted on the way that the
waveform does not have.
-/
theorem sampleAt_output (hc : c.FillsShot compile step p) (o : ChannelOutput α)
    (unit : Option PhysicalUnit) :
    (∀ before after before' after' x y q r,
      c.output compile step o unit before after p = .ok (x, q) →
      c.output compile step o unit before' after' p = .ok (y, r) →
        (x.length = c.ticks step + before + after ∧ x.length < wordModulus)
          ∧ (y.length = c.ticks step + before' + after' ∧ y.length < wordModulus)
          ∧ ∀ j : Int, -(min before before' : Nat) ≤ j →
            j < c.ticks step + (min after after' : Nat) →
            x.sampleAt (before + j).toNat = y.sampleAt (before' + j).toNat)
      ∧ ∀ advance delay ticks before after, c.shiftTicks advance step = .ok ticks →
        c.shiftTicks delay step = .ok ticks → ticks ≤ after → ∀ x q,
          c.output compile step (.delay (.advance o advance) delay) unit before after p = .ok (x, q)
            ↔ c.output compile step o unit before after p = .ok (x, q) := by
  obtain ⟨kind, signal, hplays⟩ := exists_plays hc o unit
  constructor
  . intro before after before' after' x y q r hx hy
    have hxp := hplays _ _ _ _ hx
    have hyp := hplays _ _ _ _ hy
    refine ⟨⟨?_, length_output_lt hc hx⟩, ⟨?_, length_output_lt hc hy⟩, ?_⟩
    . rw [hxp.length]
      omega
    . rw [hyp.length]
      omega
    . exact fun j => hxp.sampleAt_congr hyp
  . intro advance delay ticks before after ha hd hle x q
    simp only [output_delay_eq_ok_iff, output_advance_eq_ok_iff, ha, hd, Except.ok.injEq,
      exists_eq_left', Nat.add_sub_cancel, Nat.sub_add_cancel hle]
    constructor
    . rintro ⟨_, _, _, _, h⟩
      exact h
    . intro h
      have hlt := length_output_lt hc h
      rw [(hplays _ _ _ _ h).length] at hlt
      exact ⟨hle, by omega, by omega, by omega, h⟩

section Shots

attribute [local instance] Exact.zeroFunctions

/--
A lane that rises during the second of its three steps.
-/
def risingPower : List (Block AnalogValue) :=
  [⟨.expression ⟨"0 V"⟩, 1⟩, ⟨.ramp, 1⟩, ⟨.expression ⟨"1 V"⟩, 1⟩]

def rampShot : ShotContext Exact where
  lanes := ⟨[("power", .analog risingPower)]⟩
  devices := .empty
  times := .ofDurations ["off", "rise", "on"]
    [Number.ofDecimal 2 (-6), Number.ofDecimal 4 (-6), Number.ofDecimal 2 (-6)]
  scope := .empty

theorem fillsShot_rampShot : rampShot.FillsShot (rampShot.compileSequencer []) .microsecond {} := by
  have hc : rampShot.times.Ordered := StepTimes.ordered_ofDurations (by decide +kernel) _
  apply fillsShot_of_ordered hc (compileSequencer_ok hc [])
  intro name x hx
  contradiction

def delayedRamp : ChannelOutput Exact := .delay (.laneValues "power" none) ⟨"1 us"⟩

theorem sampleAt_output_rampShot : ∃ x q y r,
    rampShot.output (rampShot.compileSequencer []) .microsecond delayedRamp (some .volt) 0 1 {}
        = .ok (x, q)
      ∧ rampShot.output (rampShot.compileSequencer []) .microsecond delayedRamp (some .volt) 3 2 {}
        = .ok (y, r)
      ∧ x.length = 9 ∧ y.length = 13
      ∧ ∀ j : Int, 0 ≤ j → j < 9 → x.sampleAt (0 + j).toNat = y.sampleAt (3 + j).toNat := by
  have hx := Outcome.eq_ok_of_isOk (x := rampShot.output (rampShot.compileSequencer []) .microsecond
    delayedRamp (some .volt) 0 1 {}) (by decide +kernel) (.level false 0, {})
  have hy := Outcome.eq_ok_of_isOk (x := rampShot.output (rampShot.compileSequencer []) .microsecond
    delayedRamp (some .volt) 3 2 {}) (by decide +kernel) (.level false 0, {})
  have hticks : rampShot.ticks .microsecond = 8 := by decide +kernel
  obtain ⟨⟨hxl, _⟩, ⟨hyl, _⟩, h⟩ := (sampleAt_output fillsShot_rampShot delayedRamp (some .volt)).1
    _ _ _ _ _ _ _ _ hx hy
  rw [hticks] at hxl hyl h
  exact ⟨_, _, _, _, hx, hy, hxl, hyl, h⟩

/--
A ramp of more ticks than a double can count, after a step of one tick.
-/
def longRampShot : ShotContext Float where
  lanes := ⟨[("power", .analog risingPower)]⟩
  devices := .empty
  times := .ofDurations ["off", "rise", "on"]
    [Number.ofDecimal 1 (-9), Number.ofDecimal 9007199254740995 (-9), Number.zero]
  scope := .empty

def longRampTicks : Nat := 9007199254740996

def longRampWaveform : Instruction Float :=
  .concatenated [.pattern (.ofFloats [Number.zero]),
    .ramp ⟨.float, [Number.zero], [Number.one], longRampTicks - 1⟩]

def doublePoints : List (Float × Float) :=
  [(Number.zero, Number.zero), (Number.ofNat 2, Number.ofNat 2)]

/--
The parts of a waveform that is a pattern before a ramp.
-/
def patternAndRamp? : Instruction Float → Option (Pattern Float × Ramp Float)
  | .concatenated [.pattern p, .ramp r] => some (p, r)
  | _ => none

theorem eq_of_patternAndRamp? {x : Instruction Float} {p : Pattern Float} {r : Ramp Float}
    (h : patternAndRamp? x = some (p, r)) : x = .concatenated [.pattern p, .ramp r] := by
  unfold patternAndRamp? at h
  split at h
  . cases h
    rfl
  . contradiction

theorem laneWaveform_longRampShot :
    longRampShot.laneWaveform "power" (.analog risingPower) AnalogLane.nanosecondStep (some .volt)
      = .ok longRampWaveform := by
  have hparts : ((longRampShot.laneWaveform "power" (.analog risingPower) AnalogLane.nanosecondStep
      (some .volt)).toOption.bind patternAndRamp?) = some (.ofFloats [Number.zero],
        ⟨.float, [Number.zero], [Number.one], longRampTicks - 1⟩) := by
    decide +kernel
  obtain ⟨x, hx, hx'⟩ := Option.bind_eq_some_iff.mp hparts
  rw [Outcome.eq_ok_of_toOption hx, eq_of_patternAndRamp? hx']
  rfl

/--
A calibration of the ramp, which it only reaches half of.
-/
def doubleCalibration : Calibration Float := ⟨doublePoints⟩

theorem calibrationIn_doublePoints :
    calibrationIn doublePoints (some .volt) (some .volt) = .ok doubleCalibration := by
  have hsort : doublePoints.mergeSort (fun p q => Number.totalLe p.1 q.1) = doublePoints :=
    List.mergeSort_of_pairwise (by decide)
  have hfind : (doublePoints.find? fun (x, y) => !Number.isFinite x || !Number.isFinite y)
      = none := by
    decide
  have hpoints : Calibration.ofPoints doublePoints = .ok doubleCalibration := by
    rw [Calibration.ofPoints, if_neg (by decide), hfind, hsort]
    rfl
  rw [calibrationIn, hpoints]
  rfl

def longRampPieces : List (Instruction Float) :=
  doubleCalibration.pieces Number.zero Number.one (longRampTicks - 1)

/--
The second measured input would be reached behind the end of the ramp, and the tick there is one more
than the ramp has once its length has been rounded.
-/
theorem length_join_longRampPieces : (join .float longRampPieces).length = longRampTicks := by
  apply Calibration.length_join_pieces
  apply Calibration.isPartition_cuts_of_last
  . decide
  . exact .inr ⟨Number.ofNat 2, .tail _ (.head _), by decide⟩
  . decide

def calibratedParts : List (Instruction Float) :=
  [.pattern (.ofFloats [doubleCalibration.interpolate Number.zero]), join .float longRampPieces]

theorem sampleType_calibratedParts : ∀ x ∈ calibratedParts, x.sampleType = .float := by
  simp only [calibratedParts, List.mem_cons, List.not_mem_nil, or_false, forall_eq_or_imp, forall_eq]
  exact ⟨rfl, (typed_join Calibration.typed_of_mem_pieces).sampleType⟩

theorem applyFloat_zero : doubleCalibration.applyFloat (.pattern (.ofFloats [Number.zero]))
    = .ok (.pattern (.ofFloats [doubleCalibration.interpolate Number.zero])) := by
  have hvalue : doubleCalibration.calibrate Number.zero
      = .ok (doubleCalibration.interpolate Number.zero) := if_pos (by decide)
  rw [Calibration.applyFloat]
  exact Outcome.bind_eq_ok_iff.mpr ⟨_, Outcome.mapM_eq_ok_iff.mpr (.cons hvalue .nil), rfl⟩

theorem applyFloat_longRamp : doubleCalibration.applyFloat
    (.ramp ⟨.float, [Number.zero], [Number.one], longRampTicks - 1⟩)
      = .ok (join .float longRampPieces) := by
  rw [Calibration.applyFloat]
  exact Calibration.applyRamp_of_finite (by decide) (by decide) (by decide)

theorem apply_longRampWaveform :
    doubleCalibration.apply longRampWaveform = .ok (join .float calibratedParts) := by
  rw [Calibration.apply_of_asType (asType_eq_self rfl), longRampWaveform, Calibration.applyFloat,
    Calibration.applyFloatAll_eq]
  apply Outcome.bind_eq_ok_iff.mpr
  refine ⟨calibratedParts,
    Outcome.mapM_eq_ok_iff.mpr (.cons applyFloat_zero (.cons applyFloat_longRamp .nil)), ?_⟩
  rw [Outcome.mapError_eq_ok_iff, concatenate_eq_ok_iff sampleType_calibratedParts]
  exact ⟨List.cons_ne_nil _ _, rfl⟩

theorem length_join_calibratedParts :
    (join .float calibratedParts).length = longRampTicks + 1 := by
  rw [length_join, calibratedParts, totalLength, totalLength, length_join_longRampPieces]
  rfl

/--
A calibrated ramp of that length is longer than the shot, although its lane is not.
-/
theorem length_output_longRampShot : ∃ w q y r,
    longRampShot.output (longRampShot.compileSequencer []) AnalogLane.nanosecondStep
        (.laneValues "power" none) (some .volt) 0 0 {} = .ok (w, q)
      ∧ w.length = longRampShot.ticks AnalogLane.nanosecondStep
      ∧ longRampShot.output (longRampShot.compileSequencer []) AnalogLane.nanosecondStep
        (.calibrated (.laneValues "power" none) (some .volt) (some .volt) doublePoints)
        (some .volt) 0 0 {} = .ok (y, r)
      ∧ y.length = longRampShot.ticks AnalogLane.nanosecondStep + 1 := by
  have hticks : longRampShot.ticks AnalogLane.nanosecondStep = longRampTicks := by decide
  have hlane : longRampShot.output (longRampShot.compileSequencer []) AnalogLane.nanosecondStep
      (.laneValues "power" none) (some .volt) 0 0 {}
        = .ok (longRampWaveform, Progress.read {} "power") := by
    rw [output_laneValues]
    change (Compilation.ofExcept (longRampShot.laneWaveform _ _ _ _) >>= _) _ = _
    rw [laneWaveform_longRampShot]
    rfl
  have hcalibrated : calibrated doubleCalibration longRampWaveform
      = .ok (join .float calibratedParts) := by
    rw [calibrated_eq_ok_iff, length_join_calibratedParts]
    exact ⟨apply_longRampWaveform, by decide⟩
  refine ⟨_, _, join .float calibratedParts, Progress.read {} "power", hlane, hticks ▸ rfl, ?_,
    by rw [length_join_calibratedParts, hticks]⟩
  rw [output_calibrated, Compilation.bind_eq_ok_iff]
  refine ⟨_, _, hlane, ?_⟩
  rw [calibrationIn_doublePoints, Compilation.ofExcept_ok_bind, hcalibrated]
  rfl

end Shots

end Waveplan.ShotContext
