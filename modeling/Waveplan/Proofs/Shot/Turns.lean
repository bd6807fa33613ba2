import Waveplan.Proofs.Shot.Failure

/-!
This module contains the evaluation of the channels of a sequencer one after the other, and that a
sequencer fails where one of its channels does.
-/

namespace Waveplan.ShotContext

open Outcome

open CompilationError (IsTransparent)

variable {α : Type} [Number α] [Kernel α] {c : ShotContext α} {step : TimeStep}
  {P : CompilationError α → Prop} {room : Prop}

section Channels

variable {compile : String → Compilation α (Instruction α)} {before after : Nat} {p : Progress α}

theorem failsWith_channelWaveform_iff (hP : ∀ e, ¬P (.instruction e)) {channel : Channel α} :
    FailsWith P (c.channelWaveform compile step channel before after p)
      ↔ FailsWith P (c.output compile step channel.output channel.unit before after p) := by
  unfold channelWaveform
  rw [Compilation.failsWith_bind_iff]
  apply or_iff_left
  rintro ⟨x, r, _, h⟩
  exact not_failsWith_mapError hP (Compilation.failsWith_ofExcept_iff.mp h)

/--
The first channel that fails gives its name to the error.
-/
theorem failsWith_channelWaveforms_iff_channel (hP : ∀ e, ¬P (.instruction e)) {name : String}
    {number : Nat} {channels : List (Channel α)} :
    FailsWith P (c.channelWaveforms compile name step before after number channels p)
      ↔ ∃ earlier channel later ys q, channels = earlier ++ channel :: later
        ∧ c.channelWaveforms compile name step before after number earlier p = .ok (ys, q)
        ∧ FailsWith (fun e => P (.channel name (number + earlier.length) channel.description e))
          (c.channelWaveform compile step channel before after q) := by
  induction channels generalizing number p with
  | nil => simp [channelWaveforms, Compilation.failsWith_pure_iff]
  | cons channel channels ih =>
    rw [channelWaveforms, Compilation.failsWith_bind_iff, failsWith_mapError_iff]
    constructor
    . rintro (h | ⟨x, r, hx, h⟩)
      . exact ⟨[], channel, channels, [], p, rfl, rfl, h⟩
      . rcases Compilation.failsWith_ofExcept_bind_iff.mp h with h | ⟨y, hy, h⟩
        . exact absurd h (not_failsWith_mapError hP)
        . rcases Compilation.failsWith_bind_iff.mp h with h | ⟨ys, q, _, h⟩
          . obtain ⟨earlier, other, later, ys, q, rfl, hys, h⟩ := ih.mp h
            refine ⟨channel :: earlier, other, later, y :: ys, q, rfl, ?_, ?_⟩
            . apply channelWaveforms_cons_eq_ok_iff.mpr
              exact ⟨x, r, y, ys, Outcome.mapError_eq_ok_iff.mp hx,
                Outcome.mapError_eq_ok_iff.mp hy, hys, rfl⟩
            . rwa [List.length_cons, Nat.add_comm earlier.length, ← Nat.add_assoc]
          . exact absurd h Compilation.failsWith_pure_iff.mp
    . rintro ⟨earlier, other, later, ys, q, hsplit, hys, h⟩
      cases earlier with
      | nil =>
        cases hsplit
        obtain ⟨_, rfl⟩ := Compilation.pure_eq_ok_iff.mp hys
        exact .inl h
      | cons first earlier =>
        cases hsplit
        obtain ⟨x, r, y, rest, hx, hy, hrest, _⟩ := channelWaveforms_cons_eq_ok_iff.mp hys
        refine .inr ⟨x, r, Outcome.mapError_eq_ok_iff.mpr hx, ?_⟩
        apply Compilation.failsWith_ofExcept_bind_iff.mpr
        refine .inr ⟨y, Outcome.mapError_eq_ok_iff.mpr hy, ?_⟩
        apply Compilation.failsWith_bind_iff.mpr
        rw [List.length_cons, Nat.add_comm earlier.length, ← Nat.add_assoc] at h
        exact .inl (ih.mpr ⟨earlier, other, later, rest, _, rfl, hrest, h⟩)

theorem failsWith_channelWaveforms_iff (hP : IsTransparent P room) {name : String} {number : Nat}
    {channels : List (Channel α)} :
    FailsWith P (c.channelWaveforms compile name step before after number channels p)
      ↔ ∃ earlier channel later ys q, channels = earlier ++ channel :: later
        ∧ c.channelWaveforms compile name step before after number earlier p = .ok (ys, q)
        ∧ FailsWith P (c.channelWaveform compile step channel before after q) := by
  rw [failsWith_channelWaveforms_iff_channel fun _ => hP.not_of_isPlain trivial]
  simp only [hP.channel]

theorem failsWith_channels_iff (hP : IsTransparent P room) {name : String}
    {config : Sequencer α} :
    FailsWith P (c.channels compile name config p)
      ↔ ∃ before after, c.maxShifts config.timeStep config.channels = .ok (before, after)
        ∧ FailsWith P (c.channelWaveforms compile name config.timeStep before after 0
          config.channels p) := by
  have hplain : ∀ e, e.IsPlain → ¬P e := fun _ => hP.not_of_isPlain
  unfold channels
  rw [Compilation.failsWith_ofExcept_bind_iff, or_iff_right (not_failsWith_maxShifts hplain _),
    Prod.exists]
  apply exists_congr
  intro before
  apply exists_congr
  intro after
  apply and_congr Iff.rfl
  rw [Compilation.failsWith_bind_iff]
  apply or_iff_left
  rintro ⟨xs, r, _, h⟩
  split at h
  . exact hplain (.noChannels name) trivial (Compilation.failsWith_throw_iff.mp h)
  . exact not_failsWith_mapError (fun e => hplain (.instruction e) trivial)
      (Compilation.failsWith_ofExcept_iff.mp h)

end Channels

/--
The evaluation of a channel of the sequencer `name`, with the room that is reserved for it, once the
channels before it have been evaluated.
-/
structure Turn (c : ShotContext α) (pending : List String) (name : String) (p : Progress α)
    (config : Sequencer α) (before after : Nat) (channel : Channel α) (q : Progress α) :
    Prop where
  not_compiled : p.compiled.get? name = none
  configured : (c.devices.get? name).bind Device.sequencer? = some config
  isPending : name ∈ pending
  room : c.maxShifts config.timeStep config.channels = .ok (before, after)
  earlier : ∃ earlier later ys, config.channels = earlier ++ channel :: later
    ∧ c.channelWaveforms (c.compileSequencer (pending.erase name)) name config.timeStep before
      after 0 earlier p = .ok (ys, q)

/--
That a sequencer is asked for while it is being compiled.
-/
structure IsBusy (c : ShotContext α) (pending : List String) (name : String) (p : Progress α) :
    Prop where
  not_compiled : p.compiled.get? name = none
  configured : ∃ config, (c.devices.get? name).bind Device.sequencer? = some config
  not_pending : name ∉ pending

/--
A sequencer fails because it is being compiled already, or because one of its channels fails.
-/
theorem failsWith_compileSequencer_iff (hP : IsTransparent P room) {pending : List String}
    {name : String} {p : Progress α} :
    FailsWith P (c.compileSequencer pending name p)
      ↔ (c.IsBusy pending name p ∧ P (.triggerCycle name))
        ∨ ∃ config before after channel q, c.Turn pending name p config before after channel q
          ∧ FailsWith P (c.channelWaveform (c.compileSequencer (pending.erase name))
            config.timeStep channel before after q) := by
  rw [compileSequencer, Compilation.failsWith_get_bind_iff]
  cases hx : p.compiled.get? name with
  | some x =>
    apply iff_of_false Compilation.failsWith_pure_iff.mp
    rintro (⟨hb, _⟩ | ⟨config, before, after, channel, q, ht, _⟩)
    . exact absurd hb.not_compiled (by simp [hx])
    . exact absurd ht.not_compiled (by simp [hx])
  | none =>
    cases hconfig : (c.devices.get? name).bind Device.sequencer? with
    | none =>
      rw [Compilation.failsWith_throw_iff]
      refine iff_of_false (hP.not_of_isPlain trivial) ?_
      rintro (⟨hb, _⟩ | ⟨config, before, after, channel, q, ht, _⟩)
      . obtain ⟨config, hc⟩ := hb.configured
        exact absurd hc (by simp [hconfig])
      . exact absurd ht.configured (by simp [hconfig])
    | some config =>
      dsimp only
      split
      . next hmem =>
        have hidle : ¬(c.IsBusy pending name p ∧ P (.triggerCycle name)) :=
          fun hb => hb.1.not_pending hmem
        rw [or_iff_right hidle, Compilation.failsWith_bind_iff, or_iff_left,
          failsWith_channels_iff hP]
        . simp only [failsWith_channelWaveforms_iff hP]
          constructor
          . rintro ⟨before, after, hs, earlier, channel, later, ys, q, hsplit, hys, h⟩
            exact ⟨config, before, after, channel, q,
              ⟨hx, hconfig, hmem, hs, earlier, later, ys, hsplit, hys⟩, h⟩
          . rintro ⟨other, before, after, channel, q, ht, h⟩
            obtain ⟨earlier, later, ys, hsplit, hys⟩ := ht.earlier
            have hother := ht.configured
            rw [hconfig] at hother
            cases hother
            exact ⟨before, after, ht.room, earlier, channel, later, ys, q, hsplit, hys, h⟩
        . rintro ⟨x, r, _, h⟩
          exact Compilation.failsWith_pure_iff.mp h
      . next hmem =>
        rw [Compilation.failsWith_throw_iff]
        constructor
        . exact fun h => .inl ⟨⟨hx, ⟨config, hconfig⟩, hmem⟩, h⟩
        . rintro (⟨_, h⟩ | ⟨other, before, after, channel, q, ht, _⟩)
          . exact h
          . exact absurd ht.isPending hmem

/--
The checks at the end of a compilation fail with plain errors.
-/
theorem failsWith_compileSequencers_iff (hP : IsTransparent P room) {root : String} :
    FailsWith P (c.compileSequencers root)
      ↔ FailsWith P (c.compileSequencer (sequencerNames c.devices) root {}) := by
  unfold compileSequencers
  rw [failsWith_bind_iff]
  apply or_iff_left
  rintro ⟨r, _, h⟩
  dsimp only at h
  split at h
  . exact absurd (failsWith_error_iff.mp h) (hP.not_of_isPlain trivial)
  . split at h
    . exact absurd (failsWith_error_iff.mp h) (hP.not_of_isPlain trivial)
    . exact failsWith_ok_iff.mp h

/--
A turn fails where its output does.
-/
theorem Turn.failsWith_iff {pending : List String} {name : String} {p q : Progress α}
    {config : Sequencer α} {before after : Nat} {channel : Channel α}
    (ht : c.Turn pending name p config before after channel q) (hP : IsTransparent P room)
    {compile : String → Compilation α (Instruction α)} :
    FailsWith P (c.channelWaveform compile config.timeStep channel before after q)
      ↔ c.FailsAt config.timeStep room
        (fun device => FailsWith P (c.deviceTrigger compile device config.timeStep q))
        before after ⟨channel.output, channel.unit, 0⟩ := by
  obtain ⟨hb, ha⟩ := maxShifts_lt ht.room
  rw [failsWith_channelWaveform_iff fun _ => hP.not_of_isPlain trivial,
    failsWith_output_iff hP 0 hb ha]

omit [Kernel α] in
/--
The trigger of a sequencer fails where the sequencer does, or where its kind of trigger is not
supported.
-/
theorem failsWith_deviceTrigger_iff {compile : String → Compilation α (Instruction α)}
    {device : String} {config : Sequencer α} {p : Progress α}
    (hd : c.devices.get? device = some (.sequencer config)) :
    FailsWith P (c.deviceTrigger compile device step p)
      ↔ FailsWith P (compile device p) ∨ ∃ slave q, compile device p = .ok (slave, q)
        ∧ FailsWith P (c.sequencerTrigger device config slave step) := by
  unfold deviceTrigger
  rw [hd]
  simp only [Compilation.failsWith_bind_iff, Compilation.failsWith_ofExcept_iff]

end Waveplan.ShotContext
