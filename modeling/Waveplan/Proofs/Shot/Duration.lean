import Waveplan.Formula.Kernel
import Waveplan.Proofs.Shot.Clocking

/-!
This module contains that the waveforms that trigger devices last as long as the shot. The clock of
a sequencer is cut to this length. Unless its channels are shifted, it does not lose a tick of the
sequencer by that.
-/

namespace Waveplan

/--
That no advance and no delay is applied to an output. The default of a trigger is not looked into,
since no room is reserved for it.
-/
def ChannelOutput.IsUnshifted {α : Type} : ChannelOutput α → Prop
  | .constant _ | .laneValues _ _ | .deviceTrigger _ _ => True
  | .calibrated input _ _ _ => input.IsUnshifted
  | .advance _ _ | .delay _ _ => False

namespace ShotContext

open Instruction

section Shifts

variable {α : Type} [Number α] [Kernel α] {c : ShotContext α} {step : TimeStep}

theorem shifts_of_isUnshifted {o : ChannelOutput α} (h : o.IsUnshifted) :
    c.shifts step o = .ok (0, 0) := by
  induction o using ChannelOutput.induct with
  | constant | laneValues | deviceTrigger => rfl
  | calibrated input _ _ _ ih => exact ih h
  | advance | delay => exact h.elim

theorem maxShifts_of_isUnshifted {channels : List (Channel α)}
    (h : ∀ channel ∈ channels, channel.output.IsUnshifted) :
    c.maxShifts step channels = .ok (0, 0) := by
  unfold maxShifts
  induction channels with
  | nil => rfl
  | cons channel channels ih =>
    obtain ⟨hchannel, h⟩ := List.forall_mem_cons.mp h
    rw [List.foldlM_cons, shifts_of_isUnshifted hchannel]
    exact ih h

end Shifts

section Exact

variable [Kernel Exact] {c : ShotContext Exact} {step : TimeStep} {p q : Progress Exact}
  {x : Instruction Exact}

/--
An instruction that lasts as long as the shot and the shifts of the channels of its sequencer.
-/
def FillsRoom (c : ShotContext Exact) (name : String) (x : Instruction Exact) : Prop :=
  ∃ config before after, (c.devices.get? name).bind Device.sequencer? = some config
    ∧ c.maxShifts config.timeStep config.channels = .ok (before, after)
    ∧ x.Normal ∧ x.length = before + c.ticks config.timeStep + after

def Filled (c : ShotContext Exact) (p : Progress Exact) : Prop :=
  ∀ name x, p.compiled.get? name = some x → c.FillsRoom name x

theorem Filled.valid (h : c.Filled p) : c.Valid p := by
  intro name x hx
  obtain ⟨config, before, after, hconfig, _, hn, hl⟩ := h name x hx
  exact ⟨config, hconfig, hn, by omega⟩

theorem fillsRoom_of_firstRun (hc : c.times.Ordered) {u : Call Exact} {config : Sequencer Exact}
    (hu : c.Filled u.progress) (h : c.FirstRun u config x q) : c.FillsRoom u.name x := by
  obtain ⟨_, hn, before, after, hs, hl⟩ :=
    exists_room_of_channels hc (compileSequencer_ok hc _) hu.valid h.channels
  exact ⟨config, before, after, h.configured, hs, hn, hl⟩

theorem filled_of_call (hc : c.times.Ordered) {u : Call Exact} (hu : c.Filled u.progress)
    (h : c.call u = .ok (x, q)) : c.Filled q := by
  apply call_preserves (I := c.Filled) _ _ hu h
  -- reading a lane leaves the compiled instructions alone
  . exact fun _ _ _ _ _ hr => hr
  . intro v config y r _ hrun hv hr name z hz
    rw [Progress.get?_compiled_finish] at hz
    split at hz
    . next he =>
      cases hz
      rw [he]
      exact fillsRoom_of_firstRun hc hv hrun
    . exact hr name z hz

/--
Whatever has been compiled lasts as long as the shot and the shifts of its channels.
-/
theorem filled_of_reached (hc : c.times.Ordered) (h : c.Reached p) : c.Filled p := by
  induction h with
  | start => exact fun _ _ hx => nomatch hx
  | @sequencer pending name p _ _ _ h ih => exact filled_of_call hc (u := ⟨pending, name, p⟩) ih h
  | @channel pending _ _ _ _ p _ _ _ h ih =>
    obtain ⟨z, hz, hsettles⟩ := exists_settles_of_channelWaveform h
    rcases hsettles.cases_progress hz with rfl | ⟨lane, _, rfl⟩ | ⟨device, slave, _, hslave⟩
    . exact ih
    . exact ih
    . exact filled_of_call hc (u := ⟨pending, device, p⟩) ih hslave

omit [Kernel Exact] in
/--
Rounding the duration of the shot up to ticks of the slave adds less than one of them, as long as
the ticks of the master that they last can be counted.
-/
theorem mul_ticks_lt {slave master : TimeStep} {period : Nat}
    (hT : 0 ≤ c.times.duration.toRat) (hp : slave.ns.toNat = period * master.ns.toNat)
    (hlt : c.ticks slave * period < wordModulus) :
    c.ticks slave * period < c.ticks master + period := by
  have hm := master.toRat_seconds_pos
  have hs := slave.toRat_seconds_pos
  have hsm : (slave.seconds : Exact).toRat = period * (master.seconds : Exact).toRat := by
    rw [TimeStep.toRat_seconds, TimeStep.toRat_seconds, hp, Nat.cast_mul]
    ring
  have hpos : (0 : ℚ) < period := by
    rw [hsm] at hs
    exact pos_of_mul_pos_left hs hm.le
  have hup := Nat.ceil_lt_add_one (div_nonneg hT hs.le)
  have hle := Nat.le_ceil (c.times.duration.toRat / (master.seconds : Exact).toRat)
  have hmul : c.times.duration.toRat / (slave.seconds : Exact).toRat * period
      = c.times.duration.toRat / (master.seconds : Exact).toRat := by
    rw [hsm]
    field_simp
  have hround := mul_lt_mul_of_pos_right hup hpos
  rw [add_mul, one_mul, hmul] at hround
  have hcast : ((⌈c.times.duration.toRat / (slave.seconds : Exact).toRat⌉₊ * period : Nat) : ℚ)
      < (⌈c.times.duration.toRat / (master.seconds : Exact).toRat⌉₊ + period : Nat) := by
    rw [Nat.cast_mul, Nat.cast_add]
    linarith
  have hceil := Nat.cast_lt.mp hcast
  rw [ticks_eq, ticks_eq, TimeStep.tickAt_eq, TimeStep.tickAt_eq] at *
  have hslave := Nat.mul_le_mul_right period
    (Word.nearest_le ⌈c.times.duration.toRat / (slave.seconds : Exact).toRat⌉₊)
  have hperiod : 0 < period := Nat.cast_pos.mp hpos
  -- what the slave's ticks need but for their last pulse is counted, so it is counted in the master
  have hmaster := Word.le_nearest
    (m := Word.nearest ⌈c.times.duration.toRat / (slave.seconds : Exact).toRat⌉₊ * period
      + 1 - period)
    (n := ⌈c.times.duration.toRat / (master.seconds : Exact).toRat⌉₊) (by omega) (by omega)
  omega

/--
A trigger that is the beginning of a clock of the instruction `y`.
-/
structure BeginsClock (slave master : TimeStep) (y pulse clock x : Instruction Exact) : Prop where
  pulse_ok : Clock.pulse slave master = .ok pulse
  clock_ok : Clock.follow pulse y = .ok clock
  length : clock.length = y.length * pulse.length
  length_le : x.length ≤ clock.length
  sampleAt : ∀ i < x.length, x.sampleAt i = clock.sampleAt i

/--
The trigger of a sequencer that is clocked on change is the beginning of its clock. If no channel is
shifted, less than a pulse is missing at the end.
-/
theorem exists_beginsClock (hT : 0 ≤ c.times.duration.toRat) {device : String}
    {slave : Sequencer Exact} {edge : Waveplan.Edge} {y : Instruction Exact}
    (hd : c.devices.get? device = some (.sequencer slave))
    (ht : slave.trigger = .externalClockOnChange edge) (hy : c.FillsRoom device y)
    (hx : c.sequencerTrigger device slave y step = .ok x) (hl : x.length = c.ticks step) :
    ∃ pulse clock, BeginsClock slave.timeStep step y pulse clock x
      ∧ ((∀ channel ∈ slave.channels, channel.output.IsUnshifted) →
        clock.length < x.length + pulse.length) := by
  obtain ⟨config, before, after, hconfig, hs, hn, hroom⟩ := hy
  rw [bind_sequencer?_eq_some_iff, hd] at hconfig
  cases hconfig
  obtain ⟨pulse, clock, hp, hclock, hmin, hsame⟩ := exists_clock_of_sequencerTrigger ht hx
  obtain ⟨hpt, _, _, hclicks⟩ := Clock.pulse_ok hp
  obtain ⟨hadaptive, hcounted⟩ := (Clock.follow_eq_ok_iff hpt).mp hclock
  have hlength := (Clock.clocks_adaptive hpt hn hadaptive).length
  refine ⟨pulse, clock, ⟨hp, hclock, hlength, by omega, hsame⟩, fun hunshifted => ?_⟩
  rw [maxShifts_of_isUnshifted hunshifted] at hs
  cases hs
  obtain ⟨_, _, hperiod, _, _⟩ := Clock.highLowClicks_eq_ok_iff.mp hclicks
  rw [hlength, hroom, Nat.zero_add, Nat.add_zero] at hcounted
  rw [hlength, hl, hroom, Nat.zero_add, Nat.add_zero]
  exact mul_ticks_lt hT hperiod hcounted

/--
The waveform that triggers a device lasts as long as the shot, whatever the device is. What is cut
off the clock of a sequencer without shifts leaves the beginning of each of its ticks.
-/
theorem lastsShot_deviceTrigger {names : List String} {durations : List Exact}
    (ht : c.times = .ofDurations names durations) (hd : ∀ d ∈ durations, 0 ≤ d.toRat)
    {pending : List String} {device : String} (hp : c.Reached p)
    (h : c.deviceTrigger (c.compileSequencer pending) device step p = .ok (x, q)) :
    x.length = step.ticksBetween Number.zero c.times.duration
      ∧ ∀ (slave : Sequencer Exact) (edge : Waveplan.Edge),
        c.devices.get? device = some (.sequencer slave) →
        slave.trigger = .externalClockOnChange edge →
        ∃ y pulse clock, c.compileSequencer pending device p = .ok (y, q)
          ∧ BeginsClock slave.timeStep step y pulse clock x
          ∧ ((∀ channel ∈ slave.channels, channel.output.IsUnshifted) →
            clock.length < x.length + pulse.length
              ∧ ∀ k < y.length, k * pulse.length < x.length) := by
  have hc : c.times.Ordered := by
    rw [ht]
    exact StepTimes.ordered_ofDurations hd names
  have hT : 0 ≤ c.times.duration.toRat := by
    have := hc.bound_mono (Nat.zero_le _) (Nat.le_refl _)
    rwa [hc.bound_zero, hc.bound_size, Exact.toRat_zero] at this
  have hlength :=
    length_deviceTrigger hc (compileSequencer_ok hc pending) (valid_of_reached hc hp) h
  refine ⟨hlength, fun slave edge hslave hedge => ?_⟩
  rcases deviceTrigger_eq_ok h with ⟨config, y, hconfig, hy, hx⟩ | ⟨hn, _⟩
  . rw [hslave] at hconfig
    cases hconfig
    have hfilled := filled_of_reached hc (hp.sequencer hy)
    have hroom := hfilled _ _ (get?_compiled_of_call (u := ⟨pending, device, p⟩) hy)
    obtain ⟨pulse, clock, hbegins, hcut⟩ := exists_beginsClock hT hslave hedge hroom hx hlength
    refine ⟨y, pulse, clock, hy, hbegins, fun hunshifted => ⟨hcut hunshifted, fun k hk => ?_⟩⟩
    have hlt := hcut hunshifted
    have hle := Nat.mul_le_mul_right pulse.length (Nat.succ_le_of_lt hk)
    rw [hbegins.length] at hlt
    rw [Nat.succ_mul] at hle
    omega
  . exact absurd hslave (hn slave)

end Exact

section Shots

attribute [local instance] Exact.zeroFunctions

def gatedSlave : Sequencer Exact where
  timeStep := twoMicroseconds
  trigger := .externalClockOnChange .rising
  channels := [.digital "gate" (.laneValues "gate" none)]

/--
A shot that ends in the middle of the second tick of its sequencer.
-/
def unevenShot : ShotContext Exact where
  lanes := ⟨[("gate", .digital [⟨.literal true, 1⟩, ⟨.literal false, 1⟩])]⟩
  devices := ⟨[("slave", .sequencer gatedSlave)]⟩
  times := .ofDurations ["first", "second"] [Number.ofDecimal 1 (-6), Number.ofDecimal 2 (-6)]
  scope := .empty

/--
Its clock has four ticks, of which the trigger keeps three.
-/
theorem lastsShot_unevenShot : ∃ x q y pulse clock,
    unevenShot.deviceTrigger (unevenShot.compileSequencer (sequencerNames unevenShot.devices))
        "slave" .microsecond {} = .ok (x, q)
      ∧ x.length = 3
      ∧ BeginsClock twoMicroseconds .microsecond y pulse clock x
      ∧ clock.length < x.length + pulse.length ∧ ∀ k < y.length, k * pulse.length < x.length := by
  obtain ⟨⟨x, q⟩, h⟩ : ∃ r, unevenShot.deviceTrigger (unevenShot.compileSequencer
      (sequencerNames unevenShot.devices)) "slave" .microsecond {} = .ok r := by
    rw [← compileWithin_nil (by decide) (fun _ => throw .noRootSequencer) (Nat.lt_succ_self 1)]
    exact ⟨_, Outcome.eq_ok_of_isOk (by decide +kernel) (pattern (.empty .bool), {})⟩
  have hd : ∀ d ∈ [Number.ofDecimal 1 (-6), Number.ofDecimal 2 (-6)], 0 ≤ Exact.toRat d := by
    simp [Exact.toRat_ofDecimal]
  obtain ⟨hlength, hclock⟩ := lastsShot_deviceTrigger (c := unevenShot) rfl hd
    .start h
  obtain ⟨y, pulse, clock, _, hbegins, hcut⟩ := hclock gatedSlave .rising rfl rfl
  obtain ⟨hlt, hticks⟩ := hcut (List.forall_mem_singleton.mpr trivial)
  have hthree : TimeStep.microsecond.ticksBetween Number.zero unevenShot.times.duration = 3 := by
    decide +kernel
  exact ⟨x, q, y, pulse, clock, h, hlength.trans hthree, hbegins, hlt, hticks⟩

end Shots

end ShotContext

end Waveplan
