import Waveplan.Proofs.Clock
import Waveplan.Proofs.Dictionary
import Waveplan.Proofs.Lane.Waveform
import Waveplan.Proofs.Shot.Compilation

/-!
This module contains that waveforms have one channel in normal form, and that those of lanes and
triggers have the ticks of the shot.
-/

namespace Waveplan

namespace ShotContext

open Instruction

section Padding

variable {α : Type} [Number α] {x y : Instruction α} {before after : Nat}

/--
The sample of a waveform at an index, as a pattern of one tick.
-/
def edge (x : Instruction α) (index : Int) : Except InstructionError (Pattern α) := do
  let sample ← x.get index
  Pattern.constant x.sampleType sample 1

theorem edge_ok {index : Int} {p : Pattern α} (h : edge x index = .ok p) :
    p.WellFormed ∧ p.sampleType = x.sampleType ∧ p.length = 1 := by
  obtain ⟨sample, _, h⟩ := Outcome.bind_eq_ok_iff.mp h
  refine ⟨Pattern.wellFormed_constant h, ?_⟩
  obtain ⟨q, hq, h⟩ := Outcome.bind_eq_ok_iff.mp h
  cases h
  unfold Pattern.ofSamples at hq
  split at hq
  . contradiction
  . cases hq
    exact ⟨rfl, rfl⟩

theorem padWithEdges_eq_ok (h : padWithEdges x before after = .ok y) :
    (before = 0 ∧ after = 0 ∧ y = x)
      ∨ ∃ p q, edge x 0 = .ok p ∧ edge x (-1) = .ok q
        ∧ play [(pattern p).times before, x, (pattern q).times after] = .ok y := by
  have hedge {index : Int} {count : Nat} {z : Instruction α}
      (h : (do
        let sample ← x.get index
        let p ← Pattern.constant x.sampleType sample 1
        .ok ((pattern p).times count)) = Except.ok z) :
      ∃ p, edge x index = .ok p ∧ z = (pattern p).times count := by
    obtain ⟨sample, hs, h⟩ := Outcome.bind_eq_ok_iff.mp h
    obtain ⟨p, hp, h⟩ := Outcome.bind_eq_ok_iff.mp h
    cases h
    exact ⟨p, Outcome.bind_eq_ok_iff.mpr ⟨sample, hs, hp⟩, rfl⟩
  unfold padWithEdges at h
  split at h
  . next h₀ =>
    cases h
    exact .inl ⟨h₀.1, h₀.2, rfl⟩
  . obtain ⟨first, hf, h⟩ := Outcome.bind_eq_ok_iff.mp h
    obtain ⟨last, hl, h⟩ := Outcome.bind_eq_ok_iff.mp h
    obtain ⟨p, hp, rfl⟩ := hedge hf
    obtain ⟨q, hq, rfl⟩ := hedge hl
    exact .inr ⟨p, q, hp, hq, h⟩

theorem typed_edge {kind : ScalarKind} {index : Int} {p : Pattern α} (hx : x.Typed (.scalar kind))
    (h : edge x index = .ok p) (n : Nat) : ((pattern p).times n).Typed (.scalar kind) := by
  obtain ⟨hp, ht, _⟩ := edge_ok h
  rw [← hx.sampleType, ← ht]
  exact typed_times (typed_pattern hp) n

theorem padWithEdges_eq_join {kind : ScalarKind} (hx : x.Typed (.scalar kind))
    (h : padWithEdges x before after = .ok y) :
    (before = 0 ∧ after = 0 ∧ y = x)
      ∨ ∃ p q, edge x 0 = .ok p ∧ edge x (-1) = .ok q ∧ before + x.length + after < wordModulus
        ∧ y = join (.scalar kind) [(pattern p).times before, x, (pattern q).times after] := by
  refine (padWithEdges_eq_ok h).imp_right ?_
  rintro ⟨p, q, hp, hq, h⟩
  have hall : ∀ z ∈ [(pattern p).times before, x, (pattern q).times after],
      z.Typed (.scalar kind) := by
    simp only [List.mem_cons, List.not_mem_nil, or_false, forall_eq_or_imp, forall_eq]
    exact ⟨typed_edge hx hp _, hx, typed_edge hx hq _⟩
  obtain ⟨_, hlt, h⟩ := (play_eq_ok_iff_join hall).mp h
  simp only [totalLength, length_times, length_pattern, (edge_ok hp).2.2, (edge_ok hq).2.2,
    Nat.mul_one] at hlt
  exact ⟨p, q, hp, hq, by omega, h⟩

theorem typed_padWithEdges {kind : ScalarKind} (hx : x.Typed (.scalar kind))
    (h : padWithEdges x before after = .ok y) : y.Typed (.scalar kind) := by
  rcases padWithEdges_eq_join hx h with ⟨_, _, rfl⟩ | ⟨p, q, hp, hq, _, rfl⟩
  . exact hx
  . apply typed_join
    simp only [List.mem_cons, List.not_mem_nil, or_false, forall_eq_or_imp, forall_eq]
    exact ⟨typed_edge hx hp _, hx, typed_edge hx hq _⟩

end Padding

section Types

variable {α : Type} [Number α] {c : ShotContext α} {step : TimeStep} {x : Instruction α}

theorem typed_cameraTrigger {camera : String} (h : c.cameraTrigger camera step = .ok x) :
    x.Typed .bool := by
  unfold cameraTrigger at h
  split at h
  . exact (CameraLane.playsBlocks_trigger (Outcome.mapError_eq_ok_iff.mp h)).typed
  . contradiction
  . cases h
    exact typed_level _ _

theorem typed_sequencerTrigger {name : String} {config : Sequencer α} {slave : Instruction α}
    (h : c.sequencerTrigger name config slave step = .ok x) : x.Typed .bool := by
  unfold sequencerTrigger at h
  dsimp only at h
  split at h
  . obtain ⟨pulse, hp, h⟩ := Outcome.bind_eq_ok_iff.mp h
    obtain ⟨clock, hclock, h⟩ := Outcome.bind_eq_ok_iff.mp h
    have hpt := (Clock.pulse_ok hp).1
    have hct := Clock.typed_adaptive hpt ((Clock.follow_eq_ok_iff hpt).mp hclock).1
    split at h
    . exact typed_sliceBy hct (Outcome.mapError_eq_ok_iff.mp h)
    . cases h
      exact hct
  . exact (Clock.halfPulse_ok h).1
  . contradiction

variable {compile : String → Compilation α (Instruction α)} {p q : Progress α}

theorem typed_deviceTrigger {device : String}
    (h : c.deviceTrigger compile device step p = .ok (x, q)) : x.Typed .bool := by
  rcases deviceTrigger_eq_ok h with ⟨_, _, _, _, hx⟩ | ⟨_, _, hx | hx⟩
  . exact typed_sequencerTrigger hx
  . exact typed_cameraTrigger hx
  . exact (Clock.halfPulse_ok hx).1

variable [Kernel α]

theorem typed_constant {value : Expression} {unit : Option PhysicalUnit} {before after : Nat}
    (h : c.constant value step unit before after = .ok x) : ∃ kind, x.Typed (.scalar kind) := by
  obtain ⟨_, scalar, _, rfl⟩ := constant_eq_ok_iff.mp h
  exact ⟨_, typed_hold _ _⟩

theorem typed_laneWaveform {name : String} {lane : Lane} {unit : Option PhysicalUnit}
    (h : c.laneWaveform name lane step unit = .ok x) : ∃ kind, x.Typed (.scalar kind) := by
  unfold laneWaveform at h
  split at h
  . split at h
    . contradiction
    . exact ⟨_, (DigitalLane.playsBlocks_compile (Outcome.mapError_eq_ok_iff.mp h)).typed⟩
  . exact ⟨_, (AnalogLane.playsBlocks_compile (Outcome.mapError_eq_ok_iff.mp h)).typed⟩
  . contradiction

/--
Every output has one channel in normal form, whatever is compiled for it.
-/
theorem typed_output {o : ChannelOutput α} {unit : Option PhysicalUnit} {before after : Nat}
    (h : c.output compile step o unit before after p = .ok (x, q)) :
    ∃ kind, x.Typed (.scalar kind) := by
  induction o using ChannelOutput.induct generalizing x q unit before after with
  | constant value => exact typed_constant (output_constant_eq_ok_iff.mp h).1
  | laneValues name default =>
    rcases output_laneValues_eq_ok h with ⟨lane, y, _, hy, hx, _⟩ | ⟨value, _, _, hx, _⟩
    . obtain ⟨kind, hy⟩ := typed_laneWaveform hy
      exact ⟨kind, typed_padWithEdges hy hx⟩
    . exact typed_constant hx
  | deviceTrigger device default ih =>
    rcases output_deviceTrigger_eq_ok h with ⟨_, _, y, hy, hx⟩ | ⟨other, _, hother, h⟩
    . exact ⟨.bool, Clock.typed_play (Clock.typed_between_levels (typed_deviceTrigger hy) _ _) hx⟩
    . exact ih other hother h
  | calibrated input inputUnit outputUnit points ih =>
    obtain ⟨y, calibration, _, _, hx⟩ := output_calibrated_eq_ok h
    exact ⟨.float, Calibration.typed_apply (calibrated_eq_ok_iff.mp hx).1⟩
  | advance input shift ih =>
    obtain ⟨ticks, _, _, _, h⟩ := output_advance_eq_ok_iff.mp h
    exact ih h
  | delay input shift ih =>
    obtain ⟨ticks, _, _, _, h⟩ := output_delay_eq_ok_iff.mp h
    exact ih h

theorem typed_channelWaveform {channel : Channel α} {before after : Nat}
    (h : c.channelWaveform compile step channel before after p = .ok (x, q)) :
    x.Typed (.scalar channel.kind) := by
  obtain ⟨y, hy, hx⟩ := channelWaveform_eq_ok_iff.mp h
  obtain ⟨kind, ht⟩ := typed_output hy
  exact (typed_asType ht.normal hx).1

end Types

/--
An instruction that lasts at least as long as the shot, at the time step of its sequencer.
-/
def CoversShot (c : ShotContext Exact) (name : String) (x : Instruction Exact) : Prop :=
  ∃ config, (c.devices.get? name).bind Device.sequencer? = some config ∧ x.Normal
    ∧ c.ticks config.timeStep ≤ x.length

def Valid (c : ShotContext Exact) (p : Progress Exact) : Prop :=
  ∀ name x, p.compiled.get? name = some x → c.CoversShot name x

/--
A way to compile sequencers whose instructions cover the shot.
-/
def Compiles (c : ShotContext Exact) (compile : String → Compilation Exact (Instruction Exact)) :
    Prop :=
  ∀ {name : String} {p q : Progress Exact} {x : Instruction Exact}, c.Valid p →
    compile name p = .ok (x, q) → c.Valid q ∧ c.CoversShot name x

theorem ticks_eq (c : ShotContext Exact) (step : TimeStep) :
    c.ticks step = step.tickAt c.times.duration := by
  rw [ticks, TimeStep.ticksBetween, TimeStep.tickAt_zero, Nat.sub_zero]

variable {c : ShotContext Exact} {step : TimeStep} {x y : Instruction Exact}

theorem length_cameraTrigger (hc : c.times.Ordered) {camera : String}
    (h : c.cameraTrigger camera step = .ok x) : x.length = c.ticks step := by
  unfold cameraTrigger at h
  split at h
  . next blocks hl =>
    have hx := CameraLane.playsBlocks_trigger (Outcome.mapError_eq_ok_iff.mp h)
    exact hx.length_eq hc
  . contradiction
  . cases h
    exact length_level _ _

/--
As many ticks of the slave as the shot has cover the ticks of the master, unless they are too many to
be counted.
-/
theorem ticks_le_mul {slave master : TimeStep} {n period : Nat}
    (hp : slave.ns.toNat = period * master.ns.toNat) (htwo : 2 ≤ period)
    (hn : c.ticks slave ≤ n) (hlt : n * period < wordModulus) :
    c.ticks master ≤ n * period := by
  have htwice := Nat.mul_le_mul_left n htwo
  have hs := slave.toRat_seconds_pos
  have hm := master.toRat_seconds_pos
  have hsm : (slave.seconds : Exact).toRat = period * (master.seconds : Exact).toRat := by
    rw [TimeStep.toRat_seconds, TimeStep.toRat_seconds, hp, Nat.cast_mul]
    ring
  have hword : 2 < wordModulus := by decide
  rw [ticks_eq, slave.tickAt_le_iff (by omega)] at hn
  rw [ticks_eq, TimeStep.tickAt_eq]
  apply Nat.le_trans (Word.nearest_le _)
  rw [Nat.ceil_le, div_le_iff₀ hm, Nat.cast_mul, mul_assoc, ← hsm]
  exact hn

theorem length_sequencerTrigger {name : String} {config : Sequencer Exact}
    {slave : Instruction Exact} (hn : slave.Normal)
    (hs : c.ticks config.timeStep ≤ slave.length)
    (h : c.sequencerTrigger name config slave step = .ok x) : x.length = c.ticks step := by
  unfold sequencerTrigger at h
  dsimp only at h
  split at h
  . obtain ⟨pulse, hp, h⟩ := Outcome.bind_eq_ok_iff.mp h
    obtain ⟨clock, hclock, h⟩ := Outcome.bind_eq_ok_iff.mp h
    obtain ⟨hpt, high, low, hclicks⟩ := Clock.pulse_ok hp
    obtain ⟨hclock, hlt⟩ := (Clock.follow_eq_ok_iff hpt).mp hclock
    obtain ⟨_, htwo, hperiod, _⟩ := Clock.highLowClicks_eq_ok_iff.mp hclicks
    have hct := Clock.typed_adaptive hpt hclock
    have hl := (Clock.clocks_adaptive hpt hn hclock).length
    have hle := ticks_le_mul hperiod htwo hs (by rwa [← hl])
    rw [← hl] at hle
    split at h
    . next hcut => exact length_slice_zero hct.normal hlt hcut (Outcome.mapError_eq_ok_iff.mp h)
    . cases h
      omega
  . exact (Clock.halfPulse_ok h).2
  . contradiction

variable {compile : String → Compilation Exact (Instruction Exact)} {p q : Progress Exact}

theorem length_deviceTrigger (hc : c.times.Ordered) (hcompile : c.Compiles compile) (hp : c.Valid p)
    {device : String} (h : c.deviceTrigger compile device step p = .ok (x, q)) :
    x.length = c.ticks step := by
  rcases deviceTrigger_eq_ok h with ⟨config, slave, hd, hslave, hx⟩ | ⟨_, _, hx | hx⟩
  . obtain ⟨_, other, hother, hn, hl⟩ := hcompile hp hslave
    rw [hd] at hother
    cases hother
    exact length_sequencerTrigger hn hl hx
  . exact length_cameraTrigger hc hx
  . exact (Clock.halfPulse_ok hx).2

theorem length_laneWaveform [Kernel Exact] (hc : c.times.Ordered) {name : String} {lane : Lane}
    {unit : Option PhysicalUnit} (h : c.laneWaveform name lane step unit = .ok x) :
    x.length = c.ticks step := by
  unfold laneWaveform at h
  split at h
  . split at h
    . contradiction
    . have hx := DigitalLane.playsBlocks_compile (Outcome.mapError_eq_ok_iff.mp h)
      exact hx.length_eq hc
  . have hx := AnalogLane.playsBlocks_compile (Outcome.mapError_eq_ok_iff.mp h)
    exact hx.length_eq hc
  . contradiction

end ShotContext

end Waveplan
