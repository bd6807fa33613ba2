import Waveplan.Formula.Kernel
import Waveplan.Proofs.Shot.Complete
import Waveplan.Proofs.Shot.Padding

/-!
This module contains the clocks that sequencers play for others that are clocked on change. A clock
has an edge wherever the clocked sequencer changes during the shot. It ends with the shot, whatever
the clocked sequencer still plays after it because of its own delays and advances.
-/

namespace Waveplan

namespace Instruction

variable {α : Type} [Number α] {x y z : Instruction α} {kind : ScalarKind}
  {n before after period ticks : Nat}

/--
That what an instruction plays begins or changes at a tick.
-/
def Changes (x : Instruction α) (k : Nat) : Prop :=
  k < x.length ∧ (k = 0 ∨ x.sampleAt k ≠ x.sampleAt (k - 1))

/--
The sample of a channel that is high or low.
-/
def levelSample (kind : ScalarKind) (value : Bool) : Sample α := ⟨[(Scalar.bool value).cast kind]⟩

theorem sampleAt_asType_of_bool (hx : x.Typed .bool) (h : x.asType (.scalar kind) = .ok y) {i : Nat}
    (hi : i < x.length) {value : Bool} (hv : x.sampleAt i = levelSample .bool value) :
    y.sampleAt i = levelSample kind value := by
  cases kind with
  | bool =>
    cases (asType_eq_self hx.sampleType).symm.trans h
    exact hv
  | float =>
    rw [sampleAt_eq] at hv ⊢
    rw [sourceAt_asType_float hx h hi]
    cases hs : x.sourceAt i with
    | written s =>
      rw [hs] at hv
      rw [Source.toFloat, Source.value, show s = levelSample .bool value from hv]
      rfl
    | ramp r j =>
      -- the samples of ramps are floats
      rw [hs] at hv
      obtain ⟨v, _, hv⟩ := List.map_eq_singleton_iff.mp (Sample.mk.inj hv)
      contradiction

theorem sampleAt_slice_zero (hx : x.Typed .bool) (hl : x.length < wordModulus) (hn : n < x.length)
    (h : x.slice 0 (Word.toSigned n) = .ok y) :
    y.length = n ∧ ∀ i < n, y.sampleAt i = x.sampleAt i := by
  refine ⟨length_slice_zero hx.normal hl hn h, fun i hi => ?_⟩
  obtain ⟨first, last, hfirst, hlast, rfl⟩ := sliceBy_eq_ok h
  have hle := sliceBound_le hlast
  have hzero : first = 0 := sliceBound_natCast (i := 0) hfirst
  have hstop : last = n := sliceBound_toSigned hl hn hlast
  subst hzero hstop
  rw [if_neg (by omega), sampleAt_sub isDivisible_false hx.normal (rampsSatisfy_of_bool hx)
    (by omega) hle (by omega), Nat.zero_add]

section Surround

variable {s : Sample α}
  (h : y.Plays kind (x.surround (.written s) (.written s)) x.length before after)

include h

theorem Plays.sampleAt_before {i : Nat} (hi : i < before) : y.sampleAt i = s := by
  rw [sampleAt_eq, h.sourceAt i (by rw [h.length]; omega), surround, if_pos (by omega),
    Source.value]

theorem Plays.sampleAt_during {i : Nat} (hi : i < x.length) :
    y.sampleAt (before + i) = x.sampleAt i := by
  rw [sampleAt_eq, h.sourceAt _ (by rw [h.length]; omega), surround, if_neg (by omega),
    if_pos (by omega), sampleAt_eq]
  congr 2
  omega

theorem Plays.sampleAt_after {i : Nat} (hi : x.length ≤ i) (hy : before + i < y.length) :
    y.sampleAt (before + i) = s := by
  rw [sampleAt_eq, h.sourceAt _ hy, surround, if_neg (by omega), if_neg (by omega), Source.value]

end Surround

/--
A channel `z` that clocks `y` from the tick `before` on, for the first ticks of the shot.
-/
structure ClocksChanges (z y : Instruction α) (kind : ScalarKind) (before period ticks : Nat) :
    Prop where
  /-- Every change during the shot has an edge. -/
  high {k : Nat} : y.Changes k → k * period < ticks →
    before + k * period < z.length ∧ z.sampleAt (before + k * period) = levelSample kind true
  /-- A change after the shot has none. -/
  missed {k : Nat} : y.Changes k → ticks ≤ k * period → before + k * period < z.length →
    z.sampleAt (before + k * period) = levelSample kind false
  low {k : Nat} : y.Changes k → 0 < before + k * period → before + k * period ≤ z.length →
    z.sampleAt (before + k * period - 1) = levelSample kind false

theorem ClocksChanges.map {w : Instruction α} {kind' : ScalarKind}
    (h : z.ClocksChanges y kind before period ticks) (hl : w.length = z.length)
    (hs : ∀ i < z.length, ∀ value, z.sampleAt i = levelSample kind value →
      w.sampleAt i = levelSample kind' value) :
    w.ClocksChanges y kind' before period ticks where
  high hk ht := by
    obtain ⟨hlt, hv⟩ := h.high hk ht
    exact ⟨hl ▸ hlt, hs _ hlt _ hv⟩
  missed hk ht hlt := by
    rw [hl] at hlt
    exact hs _ hlt _ (h.missed hk ht hlt)
  low hk hpos hle := by
    rw [hl] at hle
    exact hs _ (by omega) _ (h.low hk hpos hle)

/--
A clock between ticks that are low, which may end before its target.
-/
theorem clocksChanges_of_plays {slave master : TimeStep} {pulse clock : Instruction α}
    (hp : Clock.pulse slave master = .ok pulse) (hclock : Clock.Clocks pulse y clock)
    (hl : x.length = min ticks clock.length) (hs : ∀ i < x.length, x.sampleAt i = clock.sampleAt i)
    (hz : z.Plays .bool (x.surround (.written ⟨[.bool false]⟩) (.written ⟨[.bool false]⟩)) x.length
      before after) : z.ClocksChanges y .bool before pulse.length ticks := by
  obtain ⟨htwo, hfirst, hlast⟩ := Clock.sampleAt_pulse hp
  have hwindow {k : Nat} (hk : y.Changes k) {i : Nat} (hi : i < pulse.length) :
      clock.sampleAt (k * pulse.length + i) = pulse.sampleAt i := by
    rcases hclock.window k hk.1 with h | ⟨⟨hne, hsame⟩, _⟩
    . exact h i hi
    . exact absurd hsame (hk.2.resolve_left hne)
  have hlt {k : Nat} (hk : y.Changes k) : k * pulse.length < clock.length := by
    rw [hclock.length]
    exact Clock.window_lt hk.1 (i := 0) (by omega)
  constructor
  . intro k hk ht
    have := hlt hk
    refine ⟨by rw [hz.length]; omega, ?_⟩
    rw [hz.sampleAt_during (by omega), hs _ (by omega)]
    exact (hwindow hk (i := 0) (by omega)).trans hfirst
  . intro k _ ht hlt
    exact hz.sampleAt_after (by omega) hlt
  . intro k hk hpos hle
    cases k with
    | zero => exact hz.sampleAt_before (by omega)
    | succ k =>
      -- the tick before is the last one of a pulse, or of a tick without one
      rw [Nat.succ_mul] at hle ⊢
      have hlow : clock.sampleAt (k * pulse.length + (pulse.length - 1)) = ⟨[.bool false]⟩ := by
        rcases hclock.window k (Nat.lt_of_succ_lt hk.1) with h | ⟨_, h⟩
        . exact (h _ (by omega)).trans hlast
        . exact h _ (by omega)
      have hi : before + (k * pulse.length + pulse.length) - 1
          = before + (k * pulse.length + (pulse.length - 1)) := by omega
      rw [hi]
      by_cases hx : k * pulse.length + (pulse.length - 1) < x.length
      . rw [hz.sampleAt_during hx, hs _ hx]
        exact hlow
      . exact hz.sampleAt_after (by omega) (by omega)

end Instruction

namespace ShotContext

open Instruction

variable {α : Type} [Number α] [Kernel α] {c : ShotContext α} {step : TimeStep} {before after : Nat}
  {p q : Progress α}

/--
The trigger of a sequencer is made for the instruction that is compiled for it.
-/
theorem play_of_output {compile : String → Compilation α (Instruction α)} {device : String}
    {default : Option (ChannelOutput α)} {unit : Option PhysicalUnit} {slave : Sequencer α}
    {x : Instruction α} (hd : c.devices.get? device = some (.sequencer slave))
    (h : c.output compile step (.deviceTrigger device default) unit before after p = .ok (x, q)) :
    ∃ y trigger, compile device p = .ok (y, q)
      ∧ c.sequencerTrigger device slave y step = .ok trigger
      ∧ Clock.play [.level false before, trigger, .level false after] = .ok x := by
  rcases output_deviceTrigger_eq_ok h with ⟨_, _, trigger, htrigger, hplay⟩ | ⟨_, hn, _⟩
  . rcases deviceTrigger_eq_ok htrigger with ⟨config, y, hconfig, hy, hx⟩ | ⟨hn, _⟩
    . rw [hd] at hconfig
      cases hconfig
      exact ⟨y, trigger, hy, hx, hplay⟩
    . exact absurd hd (hn slave)
  . rw [Dictionary.contains, hd] at hn
    contradiction

variable {u : Call α} {config : Sequencer α} {x : Instruction α}

/--
What has been compiled in the end is what the first call of the sequencer compiled.
-/
theorem exists_firstRun_of_compiled (hn : c.devices.names.Nodup) {root : String}
    (h : c.call (c.rootCall root) = .ok (x, p)) {name : String} {y : Instruction α}
    (hy : p.compiled.get? name = some y) :
    ∃ v config q, c.FirstRun v config y q ∧ c.devices.get? name = some (.sequencer config)
      ∧ Extends q p := by
  obtain ⟨v, config, q, hv, hrun, rfl⟩ := exists_firstRun h hy nofun
  refine ⟨v, config, q, hrun, bind_sequencer?_eq_some_iff.mp hrun.configured, ?_⟩
  obtain ⟨_, r, hcall, hr⟩ := exists_call_of_leads h (nodup_sequencerNames hn) hv
  have hfinish : r = q.finish v.name y := by
    rcases call_eq_ok_iff.mp hcall with ⟨hz, _⟩ | ⟨config', s, hrun', rfl⟩
    . exact absurd hrun.not_compiled (by simp [hz])
    . have hconfig := hrun'.configured
      rw [hrun.configured] at hconfig
      cases hconfig
      cases hrun.channels.symm.trans hrun'.channels
      rfl
  rw [hfinish] at hr
  have hnodup := Leads.nodup_pending hv (nodup_sequencerNames hn)
  exact (hrun.extends_finish hnodup).trans hr

theorem FirstRun.normal (h : c.FirstRun u config x q) : x.Normal := by
  obtain ⟨_, _, ys, _, hys, _, hstack⟩ := h.exists_waveforms
  have hall : ∀ y ∈ ys, y.Normal :=
    Outcome.forall_mem_of_forall₂ ((typed_channelWaveforms hys).imp fun _ _ h => h.normal)
  exact (stackAll_ok hall hstack).1

section Exact

variable [Kernel Exact] {c : ShotContext Exact} {u : Call Exact} {config : Sequencer Exact}
  {x : Instruction Exact} {p q : Progress Exact}

/--
Waveforms that have been stacked are found again under the names of their channels.
-/
theorem forall₂_field_of_stackAll {compile : String → Compilation Exact (Instruction Exact)}
    {name : String} {channels : List (Channel Exact)} {ys : List (Instruction Exact)}
    (hys : c.channelWaveforms compile name step before after 0 channels p = .ok (ys, q))
    (hne : ys ≠ []) (hx : stackAll ys = .ok x) :
    List.Forall₂
      (fun f y => ∃ z, x.field f.name = .ok z
        ∧ z.length = y.length ∧ ∀ i < y.length, z.sampleAt i = y.sampleAt i)
      (channelFields 0 channels) ys := by
  have htyped := typed_channelWaveforms hys
  have hnormal := Outcome.forall_mem_of_forall₂ (htyped.imp fun _ _ h => h.normal)
  -- instructions that have been stacked have one length
  have hlength := (stackAll_ok hnormal hx).2
  have hall := ((List.forall₂_and_left _ _).mpr ⟨hlength, htyped.flip⟩).flip.imp
    fun f y (h : _ ∧ _) => And.intro h.2 h.1
  obtain ⟨x', hx', hxt, _, hfields⟩ :=
    exists_stackAll_named hne hall (nodup_channelFields 0 channels)
  cases hx.symm.trans hx'
  have hf := hfields isDivisible_exact fun y _ r _ => trivial
  refine ((List.forall₂_and_left _ _).mpr ⟨hnormal, hf.flip⟩).flip.imp ?_
  rintro f y ⟨hyn, z, hz, hzp⟩
  have hzn := normal_field hxt.normal hz
  have hl : z.length = y.length := by
    rw [← length_toPattern hzn, hzp, length_toPattern hyn]
  refine ⟨z, hz, hl, fun i hi => ?_⟩
  rw [← sample_toPattern hzn (by rwa [hl]), hzp, sample_toPattern hyn hi]

/--
Every channel of a sequencer plays its waveform.
-/
theorem FirstRun.exists_field (h : c.FirstRun u config x q)
    (hs : c.maxShifts config.timeStep config.channels = .ok (before, after))
    {earlier later : List (Channel Exact)} {channel : Channel Exact}
    (hsplit : config.channels = earlier ++ channel :: later) :
    ∃ p w r z, c.channelWaveform (c.compileSequencer (u.pending.erase u.name)) config.timeStep
        channel before after p = .ok (w, r)
      ∧ Extends r q
      ∧ x.field (channelName earlier.length) = .ok z
      ∧ z.length = w.length ∧ ∀ i < w.length, z.sampleAt i = w.sampleAt i := by
  obtain ⟨_, _, ys, hs', hys, hne, hstack⟩ := h.exists_waveforms
  rw [hs] at hs'
  cases hs'
  have hfields := forall₂_field_of_stackAll hys hne hstack
  rw [hsplit] at hys
  obtain ⟨zs, p, rest, hzs, hrest, rfl⟩ := channelWaveforms_append_eq_ok_iff.mp hys
  obtain ⟨w, r, y, more, hw, hy, _, rfl⟩ := channelWaveforms_cons_eq_ok_iff.mp hrest
  obtain ⟨w', r', hw', hr⟩ := h.exists_turn (h.turn hs hsplit hzs)
  cases hw.symm.trans hw'
  obtain ⟨_, _, rfl⟩ := withName_eq_ok hy
  have hl : (channelFields 0 earlier).length = zs.length := (typed_channelWaveforms hzs).length_eq
  rw [hsplit, channelFields_append, channelFields_cons] at hfields
  have hdrop := List.forall₂_drop_append _ _ _ hfields
  rw [List.drop_left' hl, Nat.zero_add] at hdrop
  cases hdrop with
  | cons hz _ =>
    obtain ⟨z, hz, hzl, hsame⟩ := hz
    simp only [length_relabel, sampleAt_relabel] at hzl hsame
    exact ⟨p, w, r, z, hw, hr, hz, hzl, hsame⟩

omit [Kernel Exact] in
/--
The trigger of a sequencer that is clocked on change is the beginning of the clock of what is
compiled for it.
-/
theorem exists_clock_of_sequencerTrigger {name : String} {edge : Edge} {y : Instruction Exact}
    (ht : config.trigger = .externalClockOnChange edge)
    (hx : c.sequencerTrigger name config y step = .ok x) :
    ∃ pulse clock, Clock.pulse config.timeStep step = .ok pulse
      ∧ Clock.follow pulse y = .ok clock
      ∧ x.length = min (c.ticks step) clock.length
      ∧ ∀ i < x.length, x.sampleAt i = clock.sampleAt i := by
  unfold sequencerTrigger at hx
  dsimp only at hx
  rw [ht] at hx
  obtain ⟨pulse, hp, hx⟩ := Outcome.bind_eq_ok_iff.mp hx
  obtain ⟨clock, hclock, hx⟩ := Outcome.bind_eq_ok_iff.mp hx
  have hpt := (Clock.pulse_ok hp).1
  obtain ⟨hadaptive, hlt⟩ := (Clock.follow_eq_ok_iff hpt).mp hclock
  have hct := Clock.typed_adaptive hpt hadaptive
  refine ⟨pulse, clock, hp, hclock, ?_⟩
  split at hx
  . next hcut =>
    obtain ⟨hl, hs⟩ := sampleAt_slice_zero hct hlt hcut (Outcome.mapError_eq_ok_iff.mp hx)
    rw [hl]
    exact ⟨by omega, hs⟩
  . cases hx
    exact ⟨by omega, fun _ _ => rfl⟩

omit [Kernel Exact] in
theorem clocksChanges_of_sequencerTrigger {name : String} {edge : Edge} {y z : Instruction Exact}
    (ht : config.trigger = .externalClockOnChange edge)
    (hx : c.sequencerTrigger name config y step = .ok x)
    (hz : Clock.play [.level false before, x, .level false after] = .ok z) :
    ∃ period, 2 ≤ period ∧ config.timeStep.ns.toNat = period * step.ns.toNat
      ∧ (y.Normal → z.ClocksChanges y .bool before period (c.ticks step)) := by
  have hplays := plays_play (typed_sequencerTrigger hx) hz
  obtain ⟨pulse, clock, hp, hclock, hl, hs⟩ := exists_clock_of_sequencerTrigger ht hx
  obtain ⟨hpt, _, _, hclicks⟩ := Clock.pulse_ok hp
  obtain ⟨_, htwo, hperiod, _, _⟩ := Clock.highLowClicks_eq_ok_iff.mp hclicks
  obtain ⟨hclock, _⟩ := (Clock.follow_eq_ok_iff hpt).mp hclock
  refine ⟨pulse.length, htwo, hperiod, fun hy => ?_⟩
  exact clocksChanges_of_plays hp (Clock.clocks_adaptive hpt hy hclock) hl hs hplays

/--
The channels of a sequencer that trigger one that is clocked on change clock it.
-/
theorem FirstRun.exists_clocksChanges (h : c.FirstRun u config x q)
    (hs : c.maxShifts config.timeStep config.channels = .ok (before, after))
    {earlier later : List (Channel Exact)} {channel : Channel Exact}
    (hsplit : config.channels = earlier ++ channel :: later) {device : String}
    {default : Option (ChannelOutput Exact)} (ho : channel.output = .deviceTrigger device default)
    {slave : Sequencer Exact} (hd : c.devices.get? device = some (.sequencer slave)) {edge : Edge}
    (ht : slave.trigger = .externalClockOnChange edge) :
    ∃ y z period, q.compiled.get? device = some y
      ∧ 2 ≤ period ∧ slave.timeStep.ns.toNat = period * config.timeStep.ns.toNat
      ∧ x.field (channelName earlier.length) = .ok z
      ∧ (y.Normal → z.ClocksChanges y channel.kind before period (c.ticks config.timeStep)) := by
  obtain ⟨p, w, r, z, hw, hr, hz, hl, hsame⟩ := h.exists_field hs hsplit
  obtain ⟨v, hv, hcast⟩ := channelWaveform_eq_ok_iff.mp hw
  rw [ho] at hv
  obtain ⟨y, trigger, hy, htrigger, hplay⟩ := play_of_output hd hv
  have hcall : c.call ⟨u.pending.erase u.name, device, p⟩ = .ok (y, r) := hy
  obtain ⟨period, htwo, hperiod, hclocks⟩ := clocksChanges_of_sequencerTrigger ht htrigger hplay
  refine ⟨y, z, period, hr.compiled (get?_compiled_of_call hcall), htwo, hperiod, hz,
    fun hyn => ?_⟩
  have hvt := (plays_play (typed_sequencerTrigger htrigger) hplay).typed
  have hwl := (typed_asType hvt.normal hcast).2
  apply ((hclocks hyn).map hwl _).map hl
  . intro i hi value hvalue
    rw [hsame i hi, hvalue]
  . intro i hi value hvalue
    exact sampleAt_asType_of_bool hvt hcast hi hvalue

/--
Every channel that triggers a sequencer that is clocked on change clocks its changes during the
shot, and none of those after it.
-/
theorem clocksChanges_compileSequencers (hn : c.devices.names.Nodup) {root : String}
    {compiled : Dictionary (Instruction Exact)} (h : c.compileSequencers root = .ok compiled)
    {a b : String} {master slave : Sequencer Exact}
    (ha : c.devices.get? a = some (.sequencer master))
    (hb : c.devices.get? b = some (.sequencer slave)) {edge : Edge}
    (ht : slave.trigger = .externalClockOnChange edge) {j : Nat} {channel : Channel Exact}
    (hj : master.channels[j]? = some channel) {default : Option (ChannelOutput Exact)}
    (ho : channel.output = .deviceTrigger b default) :
    ∃ before after period x y z,
      c.maxShifts master.timeStep master.channels = .ok (before, after)
        ∧ 2 ≤ period ∧ slave.timeStep.ns.toNat = period * master.timeStep.ns.toNat
        ∧ compiled.get? a = some x
        ∧ compiled.get? b = some y
        ∧ x.field (channelName j) = .ok z
        ∧ z.ClocksChanges y channel.kind before period (c.ticks master.timeStep) := by
  obtain ⟨_, p, hcall, hreached, _, rfl⟩ := exists_call_of_compileSequencers hn h
  have hcontains := (contains_compiled_iff hn hcall).mpr (isReached_of_configured hn hreached ha)
  obtain ⟨x, hx⟩ := Option.isSome_iff_exists.mp hcontains
  obtain ⟨v, config, q, hrun, hconfig, hq⟩ := exists_firstRun_of_compiled hn hcall hx
  rw [ha] at hconfig
  cases hconfig
  obtain ⟨before, after, _, hs, _⟩ := hrun.exists_waveforms
  obtain ⟨hlt, hget⟩ := List.getElem?_eq_some_iff.mp hj
  have hsplit : master.channels
      = master.channels.take j ++ channel :: master.channels.drop (j + 1) := by
    rw [← hget, List.getElem_cons_drop, List.take_append_drop]
  obtain ⟨y, z, period, hy, htwo, hperiod, hz, hclocks⟩ :=
    hrun.exists_clocksChanges hs hsplit ho hb ht
  rw [List.length_take_of_le hlt.le] at hz
  have hy := hq.compiled hy
  obtain ⟨_, _, _, hslave, _, _⟩ := exists_firstRun_of_compiled hn hcall hy
  exact ⟨before, after, period, x, y, z, hs, htwo, hperiod, hx, hy, hz, hclocks hslave.normal⟩

end Exact

section Shots

attribute [local instance] Exact.zeroFunctions

def shiftedMaster : Sequencer Exact where
  timeStep := .microsecond
  trigger := .software
  channels := [.digital "clock" (.deviceTrigger "slave" none),
    .digital "late" (.delay (.constant ⟨"False"⟩) ⟨"4 us"⟩)]

def shiftedSlave : Sequencer Exact where
  timeStep := twoMicroseconds
  trigger := .externalClockOnChange .rising
  channels := [.digital "gate" (.delay (.laneValues "gate" none) ⟨"2 us"⟩)]

/--
A shot of two ticks of the slave, which changes at the first one after it because of its own delay.
-/
def shiftedShot : ShotContext Exact where
  lanes := ⟨[("gate", .digital [⟨.literal false, 1⟩, ⟨.literal true, 1⟩])]⟩
  devices := ⟨[("master", .sequencer shiftedMaster), ("slave", .sequencer shiftedSlave)]⟩
  times := .ofDurations ["first", "second"] [Number.ofDecimal 2 (-6), Number.ofDecimal 2 (-6)]
  scope := .empty

theorem compileSequencers_shiftedShot : ∃ compiled x y z,
    shiftedShot.compileSequencers "master" = .ok compiled
      ∧ compiled.get? "master" = some x ∧ compiled.get? "slave" = some y
      ∧ x.field (channelName 0) = .ok z
      ∧ y.length = 3
      ∧ [y.sampleAt 1, y.sampleAt 2, z.sampleAt 4].map (fun s => s.values.map Scalar.toBool)
        = [[false], [true], [false]] := by
  have h : (do
      let compiled ← (shiftedShot.compileSequencers "master").toOption
      let x ← compiled.get? "master"
      let y ← compiled.get? "slave"
      let z ← (x.field (channelName 0)).toOption
      some (y.length, [y.sampleAt 1, y.sampleAt 2, z.sampleAt 4].map fun s =>
        s.values.map Scalar.toBool)) = some (3, [[false], [true], [false]]) := by
    unfold compileSequencers
    rw [← compileWithin_nil (by decide) (fun _ => throw .noRootSequencer) (Nat.lt_succ_self 2)]
    decide +kernel
  obtain ⟨compiled, hc, h⟩ := Option.bind_eq_some_iff.mp h
  obtain ⟨x, hx, h⟩ := Option.bind_eq_some_iff.mp h
  obtain ⟨y, hy, h⟩ := Option.bind_eq_some_iff.mp h
  obtain ⟨z, hz, h⟩ := Option.bind_eq_some_iff.mp h
  obtain ⟨hl, hs⟩ := Prod.mk.inj (Option.some.inj h)
  exact ⟨compiled, x, y, z, Outcome.eq_ok_of_toOption hc, hx, hy, Outcome.eq_ok_of_toOption hz,
    hl, hs⟩

theorem clocksChanges_shiftedShot : ∃ compiled x y z,
    shiftedShot.compileSequencers "master" = .ok compiled
      ∧ compiled.get? "master" = some x ∧ compiled.get? "slave" = some y
      ∧ x.field (channelName 0) = .ok z
      ∧ z.ClocksChanges y .bool 0 2 4 := by
  obtain ⟨compiled, _, _, _, hok, _⟩ := compileSequencers_shiftedShot
  have hmaster : shiftedShot.devices.get? "master" = some (.sequencer shiftedMaster) := rfl
  have hslave : shiftedShot.devices.get? "slave" = some (.sequencer shiftedSlave) := rfl
  obtain ⟨before, after, period, x, y, z, hs, _, hperiod, hx, hy, hz, h⟩ :=
    clocksChanges_compileSequencers (by decide) hok hmaster hslave rfl (j := 0) rfl rfl
  have hshifts : shiftedShot.maxShifts shiftedMaster.timeStep shiftedMaster.channels = .ok (0, 4) :=
    Outcome.eq_ok_of_toOption (by decide +kernel)
  have hticks : shiftedShot.ticks shiftedMaster.timeStep = 4 := by decide +kernel
  have htwo : period = 2 := by
    have hperiod : 2000 = period * 1000 := hperiod
    omega
  cases hs.symm.trans hshifts
  rw [hticks, htwo] at h
  exact ⟨compiled, x, y, z, hok, hx, hy, hz, h⟩

theorem change_without_edge : ∃ compiled x y z,
    shiftedShot.compileSequencers "master" = .ok compiled
      ∧ compiled.get? "master" = some x ∧ compiled.get? "slave" = some y
      ∧ x.field (channelName 0) = .ok z
      ∧ y.Changes 2 ∧ z.sampleAt (0 + 2 * 2) ≠ levelSample .bool true := by
  obtain ⟨compiled, x, y, z, hok, hx, hy, hz, hl, hs⟩ := compileSequencers_shiftedShot
  obtain ⟨hfirst, hs⟩ := List.cons_eq_cons.mp hs
  obtain ⟨hsecond, hs⟩ := List.cons_eq_cons.mp hs
  obtain ⟨hclock, _⟩ := List.cons_eq_cons.mp hs
  refine ⟨compiled, x, y, z, hok, hx, hy, hz, ⟨by omega, .inr fun h => ?_⟩, fun h => ?_⟩
  . rw [h, hfirst] at hsecond
    contradiction
  . rw [h] at hclock
    contradiction

end Shots

end ShotContext

end Waveplan
