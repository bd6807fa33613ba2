import Waveplan.Formula.Kernel
import Waveplan.Proofs.Exact
import Waveplan.Proofs.Shot.Turns

/-!
This module contains when a compilation fails because the room that is reserved around a shot is
smaller than the shifts of an output: this takes a trigger to a device that is not configured, since
the shifts of its default are not reserved any room.
-/

namespace Waveplan

open Outcome

/--
That an output is shifted further than there is room for, in whichever channel.
-/
def CompilationError.IsOutOfRoom {α : Type} : CompilationError α → Prop
  | .advanceTooLarge _ _ | .delayTooLarge _ _ => True
  | .channel _ _ _ error => error.IsOutOfRoom
  | _ => False

open CompilationError (IsOutOfRoom)

theorem CompilationError.isTransparent_isOutOfRoom {α : Type} :
    IsTransparent (IsOutOfRoom (α := α)) True where
  channel := Iff.rfl
  advance := Iff.rfl
  delay := Iff.rfl
  not_of_isPlain {e} he := by
    cases e <;> simp_all [IsPlain, IsOutOfRoom]

namespace ShotContext

variable {α : Type} [Number α] [Kernel α] {c : ShotContext α} {step : TimeStep}

/--
A sequencer lacks room exactly where one of its outputs is shifted out of it, or where a sequencer
that is triggered lacks room itself.
-/
theorem isOutOfRoom_compileSequencer_iff_turn {pending : List String} {name : String}
    {p : Progress α} :
    FailsWith IsOutOfRoom (c.compileSequencer pending name p)
      ↔ ∃ config before after channel q, c.Turn pending name p config before after channel q
        ∧ (c.Overruns config.timeStep before after ⟨channel.output, channel.unit, 0⟩
          ∨ c.Fits config.timeStep before after ⟨channel.output, channel.unit, 0⟩
            ∧ ∃ device, c.Triggers config.timeStep ⟨channel.output, channel.unit, 0⟩ device
              ∧ FailsWith IsOutOfRoom (c.compileSequencer (pending.erase name) device q)) := by
  have hP := CompilationError.isTransparent_isOutOfRoom (α := α)
  rw [failsWith_compileSequencer_iff hP, or_iff_right fun h => h.2]
  have htrigger {compile : String → Compilation α (Instruction α)} {step : TimeStep}
      {x : Position α} {q : Progress α} {device : String} (hd : c.Triggers step x device) :
      FailsWith IsOutOfRoom (c.deviceTrigger compile device step q)
        ↔ FailsWith IsOutOfRoom (compile device q) := by
    obtain ⟨_, _, config, _, hg⟩ := hd
    rw [failsWith_deviceTrigger_iff hg]
    apply or_iff_left
    rintro ⟨slave, r, _, h⟩
    exact failsWith_sequencerTrigger (fun _ he => hP.not_of_isPlain he.isPlain) h
  constructor
  . rintro ⟨config, before, after, channel, q, ht, h⟩
    refine ⟨config, before, after, channel, q, ht, ?_⟩
    rcases (ht.failsWith_iff hP).mp h with ⟨_, ho⟩ | ⟨hf, device, hd, h⟩
    . exact .inl ho
    . exact .inr ⟨hf, device, hd, (htrigger hd).mp h⟩
  . rintro ⟨config, before, after, channel, q, ht, h⟩
    refine ⟨config, before, after, channel, q, ht, (ht.failsWith_iff hP).mpr ?_⟩
    rcases h with ho | ⟨hf, device, hd, h⟩
    . exact .inl ⟨trivial, ho⟩
    . exact .inr ⟨hf, device, hd, (htrigger hd).mpr h⟩

/--
The channels that are evaluated while a sequencer is compiled: its own, and those of the sequencers
that they trigger.
-/
inductive Evaluates (c : ShotContext α) :
    List String → String → Progress α → Sequencer α → Channel α → Prop where
  | own {pending : List String} {name : String} {p q : Progress α} {config : Sequencer α}
      {before after : Nat} {channel : Channel α} :
      c.Turn pending name p config before after channel q →
      c.Evaluates pending name p config channel
  | triggered {pending : List String} {name device : String} {p q : Progress α}
      {config config' : Sequencer α} {before after : Nat} {channel channel' : Channel α} :
      c.Turn pending name p config before after channel q →
      c.Fits config.timeStep before after ⟨channel.output, channel.unit, 0⟩ →
      c.Triggers config.timeStep ⟨channel.output, channel.unit, 0⟩ device →
      c.Evaluates (pending.erase name) device q config' channel' →
      c.Evaluates pending name p config' channel'

def IsShiftedOut (c : ShotContext α) (config : Sequencer α) (channel : Channel α) : Prop :=
  ∃ before after, c.maxShifts config.timeStep config.channels = .ok (before, after)
    ∧ c.Overruns config.timeStep before after ⟨channel.output, channel.unit, 0⟩

theorem isOutOfRoom_compileSequencer_iff {pending : List String} {name : String} {p : Progress α} :
    FailsWith IsOutOfRoom (c.compileSequencer pending name p)
      ↔ ∃ config channel, c.Evaluates pending name p config channel
        ∧ c.IsShiftedOut config channel := by
  constructor
  . intro h
    -- the sequencers that are triggered have fewer pending ones
    induction hn : pending.length using Nat.strongRecOn generalizing pending name p with
    | ind n ih =>
      obtain ⟨config, before, after, channel, q, ht, h⟩ :=
        isOutOfRoom_compileSequencer_iff_turn.mp h
      rcases h with h | ⟨hf, device, hd, h⟩
      . exact ⟨config, channel, .own ht, before, after, ht.room, h⟩
      . have hl := length_erase_lt ht.isPending
        obtain ⟨config', channel', he, hs⟩ := ih _ (by omega) h rfl
        exact ⟨config', channel', .triggered ht hf hd he, hs⟩
  . rintro ⟨config, channel, he, hs⟩
    induction he with
    | own ht =>
      obtain ⟨before, after, hroom, ho⟩ := hs
      rw [ht.room] at hroom
      cases hroom
      exact isOutOfRoom_compileSequencer_iff_turn.mpr ⟨_, _, _, _, _, ht, .inl ho⟩
    | triggered ht hf hd _ ih =>
      apply isOutOfRoom_compileSequencer_iff_turn.mpr
      exact ⟨_, _, _, _, _, ht, .inr ⟨hf, _, hd, ih hs⟩⟩

/--
That an output of a channel is shifted out of the room that is reserved for its sequencer, inside of
the default of a trigger to a device that is not configured. Until then the ticks that are left can
be counted, or else the compilation would have come to an end.
-/
def IsDefaultShiftedOut (c : ShotContext α) (config : Sequencer α) (channel : Channel α) : Prop :=
  ∃ before after device other unit s y z,
    c.maxShifts config.timeStep config.channels = .ok (before, after)
    ∧ c.DescendsCounted config.timeStep before after ⟨channel.output, channel.unit, 0⟩
      ⟨channel.output, channel.unit, 0⟩ ⟨.deviceTrigger device (some other), unit, s⟩
    ∧ c.devices.contains device = false
    ∧ c.DescendsCounted config.timeStep before after ⟨channel.output, channel.unit, 0⟩
      ⟨other, unit, s⟩ y
    ∧ c.Enters config.timeStep y z
    ∧ ¬HasRoom before after ⟨channel.output, channel.unit, 0⟩ z

theorem isShiftedOut_iff {config : Sequencer α} {channel : Channel α}
    (hm : channel ∈ config.channels) :
    c.IsShiftedOut config channel ↔ c.IsDefaultShiftedOut config channel := by
  constructor
  . rintro ⟨before, after, hroom, y, z, hxy, hyz, hz⟩
    -- the shifts that are counted fit into the room
    obtain ⟨advance, delay, hs, ha, hd⟩ := shifts_le_maxShifts hroom hm
    obtain ⟨device, other, unit, s, hx, hdevice, hdown⟩ :=
      exists_default_of_descends hxy hyz hs fun hfit => hz ⟨by omega, by omega⟩
    exact ⟨before, after, device, other, unit, s, y, z, hroom, hx, hdevice, hdown, hyz, hz⟩
  . rintro ⟨before, after, device, other, unit, s, y, z, hroom, hx, hdevice, hdown, hyz, hz⟩
    obtain ⟨hb, ha⟩ := maxShifts_lt hroom
    -- the default is entered at the shift of the trigger
    have hcounted := hx.isCounted hb ha
    exact ⟨before, after, hroom, y, z, (hx.tail ⟨.default hdevice, hcounted⟩).trans hdown, hyz, hz⟩

theorem Evaluates.mem {pending : List String} {name : String} {p : Progress α}
    {config : Sequencer α} {channel : Channel α} (h : c.Evaluates pending name p config channel) :
    channel ∈ config.channels := by
  induction h with
  | own ht =>
    obtain ⟨earlier, later, _, hsplit, _⟩ := ht.earlier
    simp [hsplit]
  | triggered _ _ _ _ ih => exact ih

theorem isOutOfRoom_compileSequencers_iff_root (root : String) :
    FailsWith IsOutOfRoom (c.compileSequencers root)
      ↔ FailsWith IsOutOfRoom (c.compileSequencer (sequencerNames c.devices) root {}) :=
  failsWith_compileSequencers_iff CompilationError.isTransparent_isOutOfRoom

/--
Compilation lacks room exactly when it evaluates a channel with the default of a trigger that is
shifted out of the room: shifts anywhere else have room.
-/
theorem isOutOfRoom_compileSequencers_iff (c : ShotContext α) (root : String) :
    FailsWith IsOutOfRoom (c.compileSequencers root) ↔ ∃ config channel,
      c.Evaluates (sequencerNames c.devices) root {} config channel
        ∧ c.IsDefaultShiftedOut config channel := by
  rw [isOutOfRoom_compileSequencers_iff_root, isOutOfRoom_compileSequencer_iff]
  apply exists_congr
  intro config
  apply exists_congr
  intro channel
  apply and_congr_right
  intro he
  exact isShiftedOut_iff he.mem

section Shots

attribute [local instance] Exact.zeroFunctions

/--
A channel with the trigger of a device that is not configured, and a delay as its default.
-/
def missingDeviceSequencer : Sequencer Exact where
  timeStep := .microsecond
  trigger := .software
  channels := [.digital "only"
    (.deviceTrigger "missing" (some (.delay (.laneValues "gate" none) ⟨"1 us"⟩)))]

def missingDeviceShot : ShotContext Exact where
  lanes := ⟨[("gate", .digital [⟨.literal true, 1⟩])]⟩
  devices := ⟨[("seq", .sequencer missingDeviceSequencer)]⟩
  times := .ofDurations ["only"] [Number.ofDecimal 2 (-6)]
  scope := .empty

theorem isOutOfRoom_missingDeviceShot :
    FailsWith IsOutOfRoom (missingDeviceShot.compileSequencers "seq") := by
  rw [isOutOfRoom_compileSequencers_iff_root, isOutOfRoom_compileSequencer_iff]
  have hticks : missingDeviceShot.shiftTicks ⟨"1 us"⟩ missingDeviceSequencer.timeStep = .ok 1 :=
    Outcome.eq_ok_of_toOption (by decide +kernel)
  have hturn : missingDeviceShot.Turn ["seq"] "seq" {} missingDeviceSequencer 0 0
      (.digital "only"
        (.deviceTrigger "missing" (some (.delay (.laneValues "gate" none) ⟨"1 us"⟩)))) {} :=
    ⟨rfl, rfl, by decide, rfl, [], [], [], rfl, rfl⟩
  refine ⟨_, _, .own hturn, 0, 0, rfl, ⟨.delay (.laneValues "gate" none) ⟨"1 us"⟩, none, 0⟩,
    ⟨.laneValues "gate" none, none, -1⟩, .single ⟨.default rfl, ?_⟩, .delay hticks, ?_⟩
  . exact isCounted_of_shift_eq (by decide) (by decide) rfl
  . rintro ⟨h, _⟩
    exact absurd h (by decide)

end Shots

end ShotContext

end Waveplan
