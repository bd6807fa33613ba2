import Waveplan.Proofs.Shot.Output
import Waveplan.Proofs.Shot.Settled

/-!
This module contains the signal that an output plays, given at every tick before, in and after the
shot. How many ticks are asked for around the shot only decides which part of the signal is in the
waveform, and advances and delays move the signal.
-/

namespace Waveplan

namespace Instruction

variable {α : Type} [Number α] {x first last : Instruction α} {kind : ScalarKind} {s t : Source α}
  {n before after : Nat}

/--
An instruction that holds one sample for `n` ticks.
-/
structure Holds (x : Instruction α) (kind : ScalarKind) (s : Source α) (n : Nat) : Prop where
  typed : x.Typed (.scalar kind)
  length : x.length = n
  ramps {Q : Ramp α → Prop} : x.RampsSatisfy Q
  sourceAt : ∀ i < n, x.sourceAt i = s

theorem holds_hold (value : Scalar α) (n : Nat) :
    (hold value n).Holds value.kind (.written ⟨[value]⟩) n :=
  ⟨typed_hold value n, length_hold value n, rampsSatisfy_hold value n,
    fun _ hi => sourceAt_hold value hi⟩

theorem holds_times {p : Pattern α} (hp : p.WellFormed) (ht : p.sampleType = .scalar kind)
    (hl : p.length = 1) (n : Nat) :
    ((pattern p).times n).Holds kind (.written (p.sample 0)) n where
  typed := by
    rw [← ht]
    exact typed_times (typed_pattern hp) n
  length := by rw [length_times, length_pattern, hl, Nat.mul_one]
  ramps := rampsSatisfy_times (rampsSatisfy_pattern p) n
  sourceAt i hi := by
    rw [sourceAt_times (by rwa [length_pattern, hl, Nat.mul_one]), length_pattern, hl, Nat.mod_one]
    rfl

/--
A waveform that plays a signal from `before` ticks before the shot until `after` ticks after it, the
shot having `n` ticks.
-/
structure Plays (x : Instruction α) (kind : ScalarKind) (signal : Int → Source α)
    (n before after : Nat) : Prop where
  typed : x.Typed (.scalar kind)
  length : x.length = before + n + after
  ramps : x.RampsSatisfy (·.length ≤ n)
  sourceAt : ∀ i < x.length, x.sourceAt i = signal (i - before)

theorem Holds.plays (h : x.Holds kind s (n + (before + after))) :
    x.Plays kind (fun _ => s) n before after :=
  ⟨h.typed, by rw [h.length]; omega, h.ramps, fun i hi => h.sourceAt i (h.length ▸ hi)⟩

/--
The signal of an instruction that is played during the shot, with one sample before it and one after
it.
-/
def surround (x : Instruction α) (s t : Source α) (j : Int) : Source α :=
  if j < 0 then s else if j < x.length then x.sourceAt j.toNat else t

theorem plays_surround (hx : x.Typed (.scalar kind)) : x.Plays kind (x.surround s t) x.length 0 0 :=
  ⟨hx, by omega, rampsSatisfy_length_le hx.normal, fun i hi => by simp [surround, hi]⟩

theorem plays_join (hf : first.Holds kind s before) (hx : x.Typed (.scalar kind))
    (hl : last.Holds kind t after) :
    (join (.scalar kind) [first, x, last]).Plays kind (x.surround s t) x.length before after := by
  have htyped : ∀ z ∈ [first, x, last], z.Typed (.scalar kind) := by
    simp only [List.mem_cons, List.not_mem_nil, or_false, forall_eq_or_imp, forall_eq]
    exact ⟨hf.typed, hx, hl.typed⟩
  have hramps : ∀ z ∈ [first, x, last], z.RampsSatisfy (·.length ≤ x.length) := by
    simp only [List.mem_cons, List.not_mem_nil, or_false, forall_eq_or_imp, forall_eq]
    exact ⟨hf.ramps, rampsSatisfy_length_le hx.normal, hl.ramps⟩
  have htotal : totalLength [first, x, last] = before + x.length + after := by
    simp only [totalLength, hf.length, hl.length]
    omega
  refine ⟨typed_join htyped, by rw [length_join, htotal], rampsSatisfy_join _ hramps, ?_⟩
  intro i hi
  rw [length_join] at hi
  rw [sourceAt_join htyped hi]
  simp only [sourceAtParts, surround, hf.length, hl.length]
  by_cases hb : i < before
  . rw [if_pos hb, if_pos (by omega), hf.sourceAt i hb]
  . by_cases hn : i - before < x.length
    . rw [if_neg hb, if_pos hn, if_neg (by omega), if_pos (by omega)]
      congr 1
      omega
    . have ha : i - before - x.length < after := by omega
      rw [if_neg hb, if_neg hn, if_pos ha, if_neg (by omega), if_neg (by omega), hl.sourceAt _ ha]

theorem Plays.shift {signal : Int → Source α} {k : Int} {before' after' : Nat}
    (h : x.Plays kind signal n before after) (hb : (before' : Int) = before + k)
    (ha : (after' : Int) = after - k) :
    x.Plays kind (fun j => signal (j + k)) n before' after' := by
  refine ⟨h.typed, by rw [h.length]; omega, h.ramps, ?_⟩
  intro i hi
  rw [h.sourceAt i hi]
  congr 1
  omega

theorem Plays.calibrate {signal : Int → Source α} {c : Calibration α} {y : Instruction α}
    (hc : ∀ (a b v : α) (m : Nat), m ≤ n → Calibration.crossing a b m v ≤ m)
    (h : x.Plays kind signal n before after) (hy : c.apply x = .ok y) :
    y.Plays .float (fun j => c.source (signal j)) n before after := by
  have hcal := Calibration.isCalibrated_apply hc h.typed h.ramps hy
  refine ⟨hcal.typed, hcal.length.trans h.length, hcal.ramps, ?_⟩
  intro i hi
  rw [hcal.length] at hi
  rw [hcal.sourceAt i hi, h.sourceAt i hi]

theorem Plays.sampleAt_congr {signal : Int → Source α} {y : Instruction α} {before' after' : Nat}
    (hx : x.Plays kind signal n before after) (hy : y.Plays kind signal n before' after') {j : Int}
    (hj : -(min before before' : Nat) ≤ j) (hj' : j < n + (min after after' : Nat)) :
    x.sampleAt (before + j).toNat = y.sampleAt (before' + j).toNat := by
  rw [sampleAt_eq, sampleAt_eq,
    hx.sourceAt _ (by rw [hx.length]; omega), hy.sourceAt _ (by rw [hy.length]; omega)]
  congr 2
  omega

end Instruction

namespace ShotContext

open Instruction

variable {α : Type} [Number α] [Kernel α] {c : ShotContext α} {step : TimeStep} {x y : Instruction α}
  {compile : String → Compilation α (Instruction α)} {p q : Progress α} {before after : Nat}

/--
What is played at the ticks around a waveform that is padded by its sample at an index.
-/
def edgeSource (x : Instruction α) (index : Int) : Source α :=
  match edge x index with
  | .ok p => .written (p.sample 0)
  | .error _ => .written ⟨[]⟩

omit [Kernel α] in
theorem holds_edge {kind : ScalarKind} {index : Int} {p : Pattern α}
    (hx : x.Typed (.scalar kind)) (h : edge x index = .ok p) (n : Nat) :
    ((pattern p).times n).Holds kind (edgeSource x index) n := by
  obtain ⟨hp, ht, hl⟩ := edge_ok h
  simp only [edgeSource, h]
  exact holds_times hp (ht.trans hx.sampleType) hl n

omit [Kernel α] in
theorem plays_padWithEdges {kind : ScalarKind} (hx : x.Typed (.scalar kind))
    (h : padWithEdges x before after = .ok y) :
    y.Plays kind (x.surround (edgeSource x 0) (edgeSource x (-1))) x.length before after := by
  rcases padWithEdges_eq_join hx h with ⟨rfl, rfl, rfl⟩ | ⟨p, q, hp, hq, _, rfl⟩
  . exact plays_surround hx
  . exact plays_join (holds_edge hx hp before) hx (holds_edge hx hq after)

omit [Kernel α] in
theorem plays_play (hx : x.Typed .bool)
    (h : Clock.play [.level false before, x, .level false after] = .ok y) :
    y.Plays .bool (x.surround (.written ⟨[.bool false]⟩) (.written ⟨[.bool false]⟩)) x.length
      before after := by
  obtain ⟨_, _, rfl⟩ := (Clock.play_eq_ok_iff (Clock.typed_between_levels hx _ _)).mp h
  exact plays_join (holds_hold (.bool false) before) hx (holds_hold (.bool false) after)

/--
Waveforms of lanes and triggers that have the ticks of the shot, and ramps no longer than the shot
that are cut inside of their ends where they are calibrated.
-/
structure FillsShot (c : ShotContext α) (compile : String → Compilation α (Instruction α))
    (step : TimeStep) (p : Progress α) : Prop where
  lane {name : String} {lane : Lane} {unit : Option PhysicalUnit} {x : Instruction α} :
    c.lanes.get? name = some lane → c.laneWaveform name lane step unit = .ok x →
      x.length = c.ticks step
  trigger {device : String} {x : Instruction α} {q : Progress α} :
    c.deviceTrigger compile device step p = .ok (x, q) → x.length = c.ticks step
  crossing_le (a b v : α) (n : Nat) : n ≤ c.ticks step → Calibration.crossing a b n v ≤ n

section Signals

variable (c step compile p)

theorem exists_plays_constant (value : Expression) (unit : Option PhysicalUnit) :
    ∃ kind signal, ∀ before after x, c.constant value step unit before after = .ok x →
      x.Plays kind signal (c.ticks step) before after := by
  match hv : c.evaluate value unit with
  | .ok scalar =>
    refine ⟨scalar.kind, fun _ => .written ⟨[scalar]⟩, fun before after x h => ?_⟩
    obtain ⟨_, _, hscalar, rfl⟩ := constant_eq_ok_iff.mp h
    cases hv.symm.trans hscalar
    exact (holds_hold scalar _).plays
  | .error e =>
    refine ⟨.bool, fun _ => .written ⟨[]⟩, fun before after x h => ?_⟩
    obtain ⟨_, _, hscalar, _⟩ := constant_eq_ok_iff.mp h
    cases hv.symm.trans hscalar

theorem exists_plays_lane (name : String) (lane : Lane) (unit : Option PhysicalUnit) :
    ∃ kind signal, ∀ before after x y, c.laneWaveform name lane step unit = .ok x →
      padWithEdges x before after = .ok y → y.Plays kind signal x.length before after := by
  match hx : c.laneWaveform name lane step unit with
  | .ok x =>
    obtain ⟨kind, ht⟩ := typed_laneWaveform hx
    refine ⟨kind, x.surround (edgeSource x 0) (edgeSource x (-1)), fun before after z y hz h => ?_⟩
    cases hz
    exact plays_padWithEdges ht h
  | .error e => exact ⟨.bool, fun _ => .written ⟨[]⟩, fun _ _ _ _ hz => nomatch hz⟩

omit [Kernel α] in
theorem exists_plays_trigger (device : String) :
    ∃ kind signal, ∀ before after x y q, c.deviceTrigger compile device step p = .ok (x, q) →
      Clock.play [.level false before, x, .level false after] = .ok y →
      y.Plays kind signal x.length before after := by
  match hx : c.deviceTrigger compile device step p with
  | .ok (x, r) =>
    let low : Source α := .written ⟨[.bool false]⟩
    refine ⟨.bool, x.surround low low, fun before after z y q hz h => ?_⟩
    cases hz
    exact plays_play (typed_deviceTrigger hx) h
  | .error e => exact ⟨.bool, fun _ => .written ⟨[]⟩, fun _ _ _ _ _ hz => nomatch hz⟩

omit compile p in
/--
The ticks of a shift, if it has any.
-/
theorem exists_shift (shift : Expression) :
    ∃ k : Nat, ∀ ticks, c.shiftTicks shift step = .ok ticks → ticks = k := by
  cases ht : c.shiftTicks shift step with
  | ok k => exact ⟨k, fun _ h => (Except.ok.inj h).symm⟩
  | error e => exact ⟨0, nofun⟩

end Signals

/--
Every output plays one signal, however many ticks are asked for around the shot.
-/
theorem exists_plays (hc : c.FillsShot compile step p) (o : ChannelOutput α)
    (unit : Option PhysicalUnit) :
    ∃ kind signal, ∀ before after x q, c.output compile step o unit before after p = .ok (x, q) →
      x.Plays kind signal (c.ticks step) before after := by
  induction o using ChannelOutput.induct generalizing unit with
  | constant value =>
    obtain ⟨kind, signal, hplays⟩ := c.exists_plays_constant step value unit
    exact ⟨kind, signal, fun _ _ x q h => hplays _ _ x (output_constant_eq_ok_iff.mp h).1⟩
  | laneValues name default =>
    cases hl : c.lanes.get? name with
    | some lane =>
      obtain ⟨kind, signal, hplays⟩ := c.exists_plays_lane step name lane unit
      refine ⟨kind, signal, fun before after x q h => ?_⟩
      rcases output_laneValues_eq_ok h with ⟨_, y, hl', hy, hx, _⟩ | ⟨_, hn, _⟩
      . rw [hl] at hl'
        cases hl'
        rw [← hc.lane hl hy]
        exact hplays _ _ _ _ hy hx
      . rw [hl] at hn
        contradiction
    | none =>
      obtain ⟨kind, signal, hplays⟩ := c.exists_plays_constant step (default.getD ⟨""⟩) unit
      refine ⟨kind, signal, fun before after x q h => ?_⟩
      rcases output_laneValues_eq_ok h with ⟨_, _, hl', _⟩ | ⟨value, _, rfl, hx, _⟩
      . rw [hl] at hl'
        contradiction
      . exact hplays _ _ _ hx
  | deviceTrigger device default ih =>
    by_cases hd : c.devices.contains device
    . obtain ⟨kind, signal, hplays⟩ := c.exists_plays_trigger step compile p device
      refine ⟨kind, signal, fun before after x q h => ?_⟩
      rcases output_deviceTrigger_eq_ok h with ⟨_, _, y, hy, hx⟩ | ⟨_, hn, _⟩
      . rw [← hc.trigger hy]
        exact hplays _ _ _ _ _ hy hx
      . rw [hd] at hn
        contradiction
    . cases default with
      | some other =>
        obtain ⟨kind, signal, hplays⟩ := ih other rfl unit
        refine ⟨kind, signal, fun before after x q h => ?_⟩
        rcases output_deviceTrigger_eq_ok h with ⟨hd', _⟩ | ⟨_, _, hother, hx⟩
        . exact absurd hd' hd
        . cases hother
          exact hplays _ _ _ _ hx
      | none =>
        refine ⟨.bool, fun _ => .written ⟨[]⟩, fun before after x q h => ?_⟩
        rcases output_deviceTrigger_eq_ok h with ⟨hd', _⟩ | ⟨_, _, hother, _⟩
        . exact absurd hd' hd
        . contradiction
  | calibrated input inputUnit outputUnit points ih =>
    obtain ⟨kind, signal, hplays⟩ := ih inputUnit
    cases hcal : calibrationIn points outputUnit unit with
    | ok calibration =>
      refine ⟨.float, fun j => calibration.source (signal j), fun before after x q h => ?_⟩
      obtain ⟨y, _, hy, hcal', hx⟩ := output_calibrated_eq_ok h
      cases hcal.symm.trans hcal'
      exact (hplays _ _ _ _ hy).calibrate hc.crossing_le (calibrated_eq_ok_iff.mp hx).1
    | error e =>
      refine ⟨kind, signal, fun before after x q h => ?_⟩
      obtain ⟨_, _, _, hcal', _⟩ := output_calibrated_eq_ok h
      cases hcal.symm.trans hcal'
  | advance input shift ih =>
    obtain ⟨kind, signal, hplays⟩ := ih unit
    obtain ⟨k, hk⟩ := c.exists_shift step shift
    refine ⟨kind, fun j => signal (j + k), fun before after x q h => ?_⟩
    obtain ⟨ticks, ht, hle, _, h⟩ := output_advance_eq_ok_iff.mp h
    cases hk ticks ht
    exact (hplays _ _ _ _ h).shift (by omega) (by omega)
  | delay input shift ih =>
    obtain ⟨kind, signal, hplays⟩ := ih unit
    obtain ⟨k, hk⟩ := c.exists_shift step shift
    refine ⟨kind, fun j => signal (j + -k), fun before after x q h => ?_⟩
    obtain ⟨ticks, ht, hle, _, h⟩ := output_delay_eq_ok_iff.mp h
    cases hk ticks ht
    exact (hplays _ _ _ _ h).shift (by omega) (by omega)

/--
A waveform fits a word, its ticks before and after the shot included.
-/
theorem length_output_lt (hc : c.FillsShot compile step p) {o : ChannelOutput α}
    {unit : Option PhysicalUnit} (h : c.output compile step o unit before after p = .ok (x, q)) :
    x.length < wordModulus := by
  induction o using ChannelOutput.induct generalizing unit before after x q with
  | constant value =>
    obtain ⟨hlt, scalar, _, rfl⟩ := constant_eq_ok_iff.mp (output_constant_eq_ok_iff.mp h).1
    rwa [length_hold]
  | laneValues name default =>
    rcases output_laneValues_eq_ok h with ⟨_, y, hl, hy, hx, _⟩ | ⟨value, _, _, hx, _⟩
    . obtain ⟨kind, ht⟩ := typed_laneWaveform hy
      rcases padWithEdges_eq_join ht hx with ⟨_, _, rfl⟩ | ⟨_, _, _, _, hlt, _⟩
      . rw [hc.lane hl hy]
        exact step.ticksBetween_lt _ _
      . rwa [(plays_padWithEdges ht hx).length]
    . obtain ⟨hlt, scalar, _, rfl⟩ := constant_eq_ok_iff.mp hx
      rwa [length_hold]
  | deviceTrigger device default ih =>
    rcases output_deviceTrigger_eq_ok h with ⟨_, _, y, hy, hplay⟩ | ⟨other, _, hother, h⟩
    . exact Clock.length_play_lt (Clock.typed_between_levels (typed_deviceTrigger hy) _ _) hplay
    . exact ih other hother h
  | calibrated input inputUnit outputUnit points ih =>
    obtain ⟨_, _, _, _, hx⟩ := output_calibrated_eq_ok h
    exact (calibrated_eq_ok_iff.mp hx).2
  | advance input shift ih =>
    obtain ⟨_, _, _, _, h⟩ := output_advance_eq_ok_iff.mp h
    exact ih h
  | delay input shift ih =>
    obtain ⟨_, _, _, _, h⟩ := output_delay_eq_ok_iff.mp h
    exact ih h

section Exact

variable [Kernel Exact] {c : ShotContext Exact} {p q : Progress Exact} {x : Instruction Exact}
  {compile : String → Compilation Exact (Instruction Exact)}

/--
Over exact arithmetic lanes and triggers always have the ticks of the shot.
-/
theorem fillsShot_of_ordered (hc : c.times.Ordered) (hcompile : c.Compiles compile)
    (hp : c.Valid p) : c.FillsShot compile step p where
  lane _ h := length_laneWaveform hc h
  trigger h := length_deviceTrigger hc hcompile hp h
  crossing_le a b v n _ := Calibration.crossing_le a b v n

/--
Whatever an output is made of, its waveform fills the shot and the room around it.
-/
theorem output_ok (hc : c.times.Ordered) (hcompile : c.Compiles compile) {o : ChannelOutput Exact}
    {unit : Option PhysicalUnit} (hp : c.Valid p)
    (h : c.output compile step o unit before after p = .ok (x, q)) :
    c.Valid q ∧ x.Normal ∧ x.length = before + c.ticks step + after := by
  obtain ⟨_, _, hplays⟩ := exists_plays (fillsShot_of_ordered hc hcompile hp) o unit
  have hx := hplays _ _ _ _ h
  refine ⟨?_, hx.typed.normal, hx.length⟩
  obtain ⟨z, hz, hsettles⟩ := exists_settles 0 h
  rcases hsettles.cases_progress hz with rfl | ⟨lane, _, rfl⟩ | ⟨device, slave, _, hslave⟩
  . exact hp
  -- reading a lane leaves the compiled instructions alone
  . exact hp
  . exact (hcompile hp hslave).1

end Exact

end ShotContext

end Waveplan
