import Waveplan.Formula.Kernel
import Waveplan.Proofs.Calibration.Rescale
import Waveplan.Proofs.Lane.Rescale
import Waveplan.Proofs.Shot.Padding

/-!
This module contains that the unit of a channel only rescales it: in another unit of the same
dimension an output can be evaluated exactly if it can in this one, and all of its samples are
multiplied by the factor between the units.
-/

namespace Waveplan

open Instruction Outcome

namespace Compilation

variable {α β γ δ : Type} {p : Progress α} {R : γ → δ → Prop}

/--
That two steps of a compilation agree, and make the same progress.
-/
def AgreeFrom (R : γ → δ → Prop) (p : Progress α) (x : Compilation α γ) (y : Compilation α δ) :
    Prop :=
  Agree (fun r s => R r.1 s.1 ∧ r.2 = s.2) (x p) (y p)

theorem agreeFrom_ofExcept {x : Except (CompilationError α) γ} {y : Except (CompilationError α) δ}
    (h : Agree R x y) : AgreeFrom R p (ofExcept x) (ofExcept y) := by
  cases h with
  | ok h => exact .ok ⟨h, rfl⟩
  | error => exact .error

theorem agreeFrom_throw {e e' : CompilationError α} :
    AgreeFrom R p (throw e : Compilation α γ) (throw e' : Compilation α δ) := .error

theorem agreeFrom_bind_same {x : Compilation α β} {f : β → Compilation α γ}
    {g : β → Compilation α δ} (h : ∀ b q, AgreeFrom R q (f b) (g b)) :
    AgreeFrom R p (x >>= f) (x >>= g) :=
  Agree.bind_same fun r _ => h r.1 r.2

theorem agreeFrom_ofExcept_bind {β' : Type} {S : β → β' → Prop} {x : Except (CompilationError α) β}
    {y : Except (CompilationError α) β'} {f : β → Compilation α γ} {g : β' → Compilation α δ}
    (h : Agree S x y) (hf : ∀ a b, S a b → AgreeFrom R p (f a) (g b)) :
    AgreeFrom R p (ofExcept x >>= f) (ofExcept y >>= g) := by
  cases h with
  | ok h => exact hf _ _ h
  | error => exact .error

end Compilation

namespace ShotContext

open Compilation

section Padding

variable {k : Exact} {x y : Instruction Exact}

theorem constant_float (v : Exact) :
    Pattern.constant .float ⟨[.float v]⟩ 1 = .ok (.ofFloats [v]) := rfl

theorem agree_edge (h : Rescaled k x y) (index : Int) (n : Nat) :
    Agree (Rescaled k)
      (do
        let sample ← x.get index
        let p ← Pattern.constant x.sampleType sample 1
        .ok ((pattern p).times n))
      (do
        let sample ← y.get index
        let p ← Pattern.constant y.sampleType sample 1
        .ok ((pattern p).times n)) := by
  rw [h.typed.sampleType, h.typed_right.sampleType]
  refine (h.agree_get index).bind fun s t hst => ?_
  obtain ⟨v, rfl, rfl⟩ := hst
  rw [constant_float, constant_float]
  exact .ok ((rescaled_ofFloats k [v]).times n)

theorem agree_padWithEdges (h : Rescaled k x y) (before after : Nat) :
    Agree (Rescaled k) (padWithEdges x before after) (padWithEdges y before after) := by
  refine Agree.ite Iff.rfl (.ok h) ?_
  refine (agree_edge h 0 before).bind fun first first' hfirst => ?_
  refine (agree_edge h (-1) after).bind fun last last' hlast => ?_
  exact agree_play (.cons hfirst (.cons h (.cons hlast .nil)))

end Padding

section Calibration

theorem mapOutputs_factor_self (c : Calibration Exact) (unit : PhysicalUnit) :
    c.mapOutputs (· * unit.factor unit) = c := by
  have hone (y : Exact) : y * unit.factor unit = y := by
    apply Exact.toRat_inj.mp
    rw [Exact.toRat_mul, PhysicalUnit.factor_self, mul_one]
  simp [Calibration.mapOutputs, hone]

/--
The outputs of a calibration are multiplied by the factor from their unit to that of the channel,
and stay as they are if the units are equal.
-/
theorem calibrationIn_some (points : List (Exact × Exact)) (source unit : PhysicalUnit) :
    calibrationIn points (some source) (some unit)
      = (do
        let c ← (Calibration.ofPoints points).mapError CompilationError.calibration
        if source.dimension = unit.dimension then .ok (c.mapOutputs (· * source.factor unit))
        else .error (.calibrationUnits (some source) (some unit))) := by
  unfold calibrationIn
  congr 1
  funext c
  by_cases he : source = unit
  . subst he
    rw [if_pos rfl, if_pos rfl, mapOutputs_factor_self]
  . have hone : (Number.one : Exact) * source.scale / unit.scale = source.factor unit := by
      apply Exact.toRat_inj.mp
      have hone : (Number.one : Exact).toRat = 1 := Nat.cast_one
      rw [Exact.toRat_div, Exact.toRat_mul, hone, one_mul, PhysicalUnit.toRat_factor]
    rw [if_neg fun h => he (Option.some.inj h)]
    unfold convertMagnitude
    dsimp only
    rw [if_neg he, hone]
    by_cases hd : source.dimension = unit.dimension
    . rw [if_pos hd, if_pos hd]
    . rw [if_neg hd, if_neg hd]

theorem agree_calibrationIn {u v : PhysicalUnit} (h : u.dimension = v.dimension)
    (points : List (Exact × Exact)) (source : Option PhysicalUnit) :
    Agree (fun c d => d = c.mapOutputs (· * u.factor v)) (calibrationIn points source (some u))
      (calibrationIn points source (some v)) := by
  cases source with
  | none => exact Agree.bind_same fun c _ => .error
  | some source =>
    rw [calibrationIn_some, calibrationIn_some]
    refine Agree.bind_same fun c _ => Agree.ite (by rw [h]) (.ok ?_) .error
    rw [Calibration.mapOutputs_mapOutputs]
    congr 1
    funext y
    apply Exact.toRat_inj.mp
    have := u.toRat_scale_ne_zero
    simp only [Exact.toRat_mul, PhysicalUnit.toRat_factor]
    field_simp

theorem agree_calibrated (d : Calibration Exact) (k : Exact) (x : Instruction Exact) :
    Agree (Rescaled k) (calibrated d x) (calibrated (d.mapOutputs (· * k)) x) :=
  ((d.agree_apply k x).mapError _ _).bind fun _ _ hyz => hyz.agree_fit.mapError _ _

end Calibration

section Units

variable [Kernel Exact] {u v : PhysicalUnit} (h : u.dimension = v.dimension)

include h

theorem agree_constant (c : ShotContext Exact) (value : Expression) (step : TimeStep)
    (before after : Nat) :
    Agree (Rescaled (u.factor v)) (c.constant value step (some u) before after)
      (c.constant value step (some v) before after) := by
  refine Agree.bind_same fun _ _ => Agree.bind_same fun length _ => ?_
  refine ((Expression.agree_evaluateIn h value c.scope).mapError _ _).bind fun s t hst => ?_
  obtain ⟨y, rfl, rfl⟩ := hst
  exact .ok (rescaled_hold _ y _)

theorem agree_laneWaveform (c : ShotContext Exact) (name : String) (lane : Lane)
    (step : TimeStep) :
    Agree (Rescaled (u.factor v)) (c.laneWaveform name lane step (some u))
      (c.laneWaveform name lane step (some v)) := by
  cases lane with
  | digital blocks => exact .error
  | analog blocks => exact (AnalogLane.agree_compile h name blocks _ _ _).mapError _ _
  | camera blocks => exact .error

/--
An output is rescaled when the unit of its channel is changed to another one of the same dimension.
What is below a calibration keeps its own unit.
-/
theorem agreeFrom_output (c : ShotContext Exact)
    (compile : String → Compilation Exact (Instruction Exact)) (step : TimeStep)
    (o : ChannelOutput Exact) (before after : Nat) (p : Progress Exact) :
    AgreeFrom (Rescaled (u.factor v)) p (c.output compile step o (some u) before after)
      (c.output compile step o (some v) before after) := by
  induction o using ChannelOutput.induct generalizing before after p with
  | constant value =>
    rw [output_constant, output_constant]
    exact agreeFrom_ofExcept (agree_constant h c value step _ _)
  | laneValues name default =>
    rw [output_laneValues, output_laneValues]
    match c.lanes.get? name, default with
    | some lane, _ =>
      refine agreeFrom_ofExcept_bind (agree_laneWaveform h c name lane step) fun x y hxy => ?_
      refine agreeFrom_bind_same fun _ q => agreeFrom_ofExcept ?_
      exact (agree_padWithEdges hxy before after).mapError _ _
    | none, some value => exact agreeFrom_ofExcept (agree_constant h c value step _ _)
    | none, none => exact agreeFrom_throw
  | deviceTrigger device default ih =>
    rw [output_deviceTrigger, output_deviceTrigger]
    split
    . exact agreeFrom_throw
    . cases default with
      | some other => exact ih other rfl before after p
      | none => exact agreeFrom_throw
  | calibrated input inputUnit outputUnit points ih =>
    rw [output_calibrated, output_calibrated]
    refine agreeFrom_bind_same fun x q => ?_
    refine agreeFrom_ofExcept_bind (agree_calibrationIn h points outputUnit) fun d e he => ?_
    rw [he]
    exact agreeFrom_ofExcept (agree_calibrated d _ x)
  | advance input shift ih =>
    rw [output_advance, output_advance]
    exact agreeFrom_bind_same fun moved q => ih _ _ q
  | delay input shift ih =>
    rw [output_delay, output_delay]
    exact agreeFrom_bind_same fun moved q => ih _ _ q

/--
The unit of a channel only rescales it. In two units of one dimension an output succeeds in both or
fails in both, it has the same ticks and makes the same progress, and its samples in the second unit
are those in the first one times the ratio of the units.
-/
theorem rescales_output (c : ShotContext Exact)
    (compile : String → Compilation Exact (Instruction Exact)) (step : TimeStep)
    (o : ChannelOutput Exact) (before after : Nat) (p : Progress Exact) :
    ((∃ r, c.output compile step o (some u) before after p = .ok r)
        ↔ ∃ r, c.output compile step o (some v) before after p = .ok r)
      ∧ ∀ x y q r, c.output compile step o (some u) before after p = .ok (x, q) →
        c.output compile step o (some v) before after p = .ok (y, r) →
          q = r ∧ y.length = x.length
            ∧ ∀ i < x.length, ∃ s t : Exact,
              x.sampleAt i = ⟨[.float s]⟩ ∧ y.sampleAt i = ⟨[.float t]⟩
                ∧ t.toRat = s.toRat * ((u.scale : Exact).toRat / (v.scale : Exact).toRat) := by
  have hagree := agreeFrom_output h c compile step o before after p
  refine ⟨hagree.exists_ok_iff, fun x y q r hx hy => ?_⟩
  obtain ⟨hxy, hqr⟩ := hagree.of_eq_ok hx hy
  refine ⟨hqr, hxy.length, fun i hi => ?_⟩
  obtain ⟨s, hs⟩ := exists_sampleAt_eq hxy.typed hi
  refine ⟨s, s * u.factor v, hs, ?_, rfl⟩
  rw [hxy.sampleAt i hi, hs, Sample.rescale_float]

end Units

section Shots

attribute [local instance] Exact.zeroFunctions

theorem rescales_output_delayedRamp :
    PhysicalUnit.volt.dimension = PhysicalUnit.millivolt.dimension
      ∧ ∃ x q y r,
        rampShot.output (rampShot.compileSequencer []) .microsecond delayedRamp (some .volt) 3 2 {}
            = .ok (x, q)
          ∧ rampShot.output (rampShot.compileSequencer []) .microsecond delayedRamp
            (some .millivolt) 3 2 {} = .ok (y, r)
          ∧ x.length = 13 ∧ y.length = x.length
          ∧ (y.sampleAt 12).values.map Scalar.toFloat = [Number.ofNat 1000]
          ∧ ∀ i < x.length, ∃ s t : Exact, x.sampleAt i = ⟨[.float s]⟩
            ∧ y.sampleAt i = ⟨[.float t]⟩ ∧ t.toRat = s.toRat * 1000 := by
  have hx := Outcome.eq_ok_of_isOk (x := rampShot.output (rampShot.compileSequencer [])
    .microsecond delayedRamp (some .volt) 3 2 {}) (by decide +kernel) (.level false 0, {})
  have hy := Outcome.eq_ok_of_isOk (x := rampShot.output (rampShot.compileSequencer [])
    .microsecond delayedRamp (some .millivolt) 3 2 {}) (by decide +kernel) (.level false 0, {})
  obtain ⟨_, hl, hs⟩ := (rescales_output (u := .volt) (v := .millivolt) rfl rampShot
    (rampShot.compileSequencer []) .microsecond delayedRamp 3 2 {}).2 _ _ _ _ hx hy
  have hratio : (PhysicalUnit.volt.scale : Exact).toRat
      / (PhysicalUnit.millivolt.scale : Exact).toRat = 1000 := by
    rw [PhysicalUnit.scale, PhysicalUnit.scale, Exact.toRat_ofDecimal, Exact.toRat_ofDecimal]
    norm_num [PhysicalUnit.exponent]
  rw [hratio] at hs
  exact ⟨rfl, _, _, _, _, hx, hy, by decide +kernel, hl, by decide +kernel, hs⟩

end Shots

end ShotContext

end Waveplan
