import Waveplan.Proofs.Shot.Descent

/-!
This module contains what the evaluation of an output does when it succeeds: nothing on the way down
changes what has been compiled and read, and the output that the descent ends in reads a lane, calls
a sequencer, or does neither.
-/

namespace Waveplan

variable {α : Type}

namespace Progress

theorem contains_usedLanes_read (p : Progress α) (lane other : String) :
    (p.read lane).usedLanes.contains other ↔ other = lane ∨ p.usedLanes.contains other := by
  rw [read, Dictionary.contains, Dictionary.get?_insert, Dictionary.contains]
  split <;> simp_all

theorem get?_compiled_finish (p : Progress α) (name other : String) (x : Instruction α) :
    (p.finish name x).compiled.get? other
      = if other = name then some x else p.compiled.get? other :=
  Dictionary.get?_insert _ _ _ _

end Progress

namespace ShotContext

variable [Number α] [Kernel α] {c : ShotContext α} {step : TimeStep}
  {compile : String → Compilation α (Instruction α)} {p q : Progress α} {x z : Position α}

/--
What the evaluation of an output that is not gone on with does to the progress.
-/
inductive Settles (c : ShotContext α) (compile : String → Compilation α (Instruction α))
    (step : TimeStep) (p : Progress α) : Position α → Progress α → Prop where
  | constant {value : Expression} {unit : Option PhysicalUnit} {s : Int} :
      c.Settles compile step p ⟨.constant value, unit, s⟩ p
  | missingLane {lane : String} {default : Option Expression} {unit : Option PhysicalUnit}
      {s : Int} : c.lanes.get? lane = none →
      c.Settles compile step p ⟨.laneValues lane default, unit, s⟩ p
  | lane {lane : String} {default : Option Expression} {unit : Option PhysicalUnit} {s : Int}
      {values : Lane} : c.lanes.get? lane = some values →
      c.Settles compile step p ⟨.laneValues lane default, unit, s⟩ (p.read lane)
  | device {device : String} {default : Option (ChannelOutput α)} {s : Int} {config : Device α} :
      c.devices.get? device = some config → config.sequencer? = none →
      c.Settles compile step p ⟨.deviceTrigger device default, none, s⟩ p
  | sequencer {device : String} {default : Option (ChannelOutput α)} {s : Int}
      {config : Sequencer α} {slave y : Instruction α} {q : Progress α} :
      c.devices.get? device = some (.sequencer config) → compile device p = .ok (slave, q) →
      c.sequencerTrigger device config slave step = .ok y →
      c.Settles compile step p ⟨.deviceTrigger device default, none, s⟩ q

theorem Settles.not_enters (h : c.Settles compile step p z q) : ∀ y, ¬c.Enters step z y := by
  cases h with
  | device hd _ | sequencer hd _ _ =>
    rintro y ⟨hn⟩
    rw [Dictionary.contains, hd] at hn
    contradiction
  | _ => rintro y ⟨⟩

theorem Settles.unique_end {z' : Position α} (h : c.Settles compile step p z q)
    (hz : c.Descends step x z) (hz' : c.Descends step x z') (hend : ∀ y, ¬c.Enters step z' y) :
    z' = z := by
  rcases Relation.ReflTransGen.total_of_right_unique (fun _ _ _ h h' => h'.unique h) hz hz'
    with h' | h'
  . exact ((descends_iff_eq h.not_enters).mp h').symm
  . exact (descends_iff_eq hend).mp h'

/--
An output that ends in the trigger of a sequencer calls it.
-/
theorem Settles.of_triggers (h : c.Settles compile step p z q) (hz : c.Descends step x z)
    {device : String} (hd : c.Triggers step x device) :
    ∃ config slave y, c.devices.get? device = some (.sequencer config)
      ∧ compile device p = .ok (slave, q)
      ∧ c.sequencerTrigger device config slave step = .ok y := by
  obtain ⟨default, s, config, hz', hg⟩ := hd
  have hend : ∀ y, ¬c.Enters step ⟨.deviceTrigger device default, none, s⟩ y := by
    rintro y ⟨hn⟩
    rw [Dictionary.contains, hg] at hn
    contradiction
  cases h.unique_end hz hz' hend
  cases h with
  | device hg' hn =>
    rw [hg] at hg'
    cases hg'
    contradiction
  | sequencer hg' hs hy => exact ⟨_, _, _, hg', hs, hy⟩

/--
An output that ends in the values of a lane reads it.
-/
theorem Settles.of_reads (h : c.Settles compile step p z q) (hz : c.Descends step x z)
    {lane : String} (hr : c.Reads step x lane) : q = p.read lane := by
  obtain ⟨default, unit, s, values, hz', hg⟩ := hr
  cases h.unique_end hz hz' (by rintro y ⟨⟩)
  cases h with
  | missingLane hn =>
    rw [hg] at hn
    contradiction
  | lane _ => rfl

/--
The progress changes for a lane that is read or a sequencer that is called, and for nothing else.
-/
theorem Settles.cases_progress (h : c.Settles compile step p z q) (hz : c.Descends step x z) :
    q = p ∨ (∃ lane, c.Reads step x lane ∧ q = p.read lane)
      ∨ ∃ device slave, c.Triggers step x device ∧ compile device p = .ok (slave, q) := by
  cases h with
  | constant => exact .inl rfl
  | missingLane _ => exact .inl rfl
  | lane hl => exact .inr (.inl ⟨_, ⟨_, _, _, _, hz, hl⟩, rfl⟩)
  | device _ _ => exact .inl rfl
  | sequencer hd hs _ => exact .inr (.inr ⟨_, _, ⟨_, _, _, hz, hd⟩, hs⟩)

omit [Kernel α] in
theorem settles_deviceTrigger {device : String} {default : Option (ChannelOutput α)} {s : Int}
    {y : Instruction α} (hd : c.devices.contains device)
    (h : c.deviceTrigger compile device step p = .ok (y, q)) :
    c.Settles compile step p ⟨.deviceTrigger device default, none, s⟩ q := by
  rcases deviceTrigger_eq_ok h with ⟨config, slave, hg, hslave, hy⟩ | ⟨hn, rfl, _⟩
  . exact .sequencer hg hslave hy
  . obtain ⟨config, hg⟩ := Option.isSome_iff_exists.mp hd
    refine .device hg ?_
    cases config with
    | sequencer config => exact absurd hg (hn config)
    | camera | other => rfl

/--
An output that can be evaluated settles in the output that it descends to.
-/
theorem exists_settles {o : ChannelOutput α} {unit : Option PhysicalUnit} {before after : Nat}
    {x : Instruction α} (s : Int) (h : c.output compile step o unit before after p = .ok (x, q)) :
    ∃ z, c.Descends step ⟨o, unit, s⟩ z ∧ c.Settles compile step p z q := by
  induction o using ChannelOutput.induct generalizing unit before after x q s with
  | constant value =>
    obtain ⟨_, rfl⟩ := output_constant_eq_ok_iff.mp h
    exact ⟨_, .refl, .constant⟩
  | laneValues lane default =>
    refine ⟨_, .refl, ?_⟩
    rcases output_laneValues_eq_ok h with ⟨_, _, hl, _, _, rfl⟩ | ⟨_, hl, _, _, rfl⟩
    . exact .lane hl
    . exact .missingLane hl
  | deviceTrigger device default ih =>
    rcases output_deviceTrigger_eq_ok h with ⟨hd, rfl, y, hy, _⟩ | ⟨other, hd, rfl, hother⟩
    . exact ⟨_, .refl, settles_deviceTrigger hd hy⟩
    . obtain ⟨z, hz, hs⟩ := ih other rfl s hother
      exact ⟨z, .head (.default hd) hz, hs⟩
  | calibrated input inputUnit outputUnit points ih =>
    obtain ⟨y, calibration, hy, _, _⟩ := output_calibrated_eq_ok h
    obtain ⟨z, hz, hs⟩ := ih s hy
    exact ⟨z, .head .calibrated hz, hs⟩
  | advance input shift ih =>
    obtain ⟨ticks, ht, _, _, h⟩ := output_advance_eq_ok_iff.mp h
    obtain ⟨z, hz, hs⟩ := ih (s + ticks) h
    exact ⟨z, .head (.advance ht) hz, hs⟩
  | delay input shift ih =>
    obtain ⟨ticks, ht, _, _, h⟩ := output_delay_eq_ok_iff.mp h
    obtain ⟨z, hz, hs⟩ := ih (s - ticks) h
    exact ⟨z, .head (.delay ht) hz, hs⟩

/--
An output that can be evaluated has room for its shifts.
-/
theorem fits_of_output {o : ChannelOutput α} {unit : Option PhysicalUnit} {before after : Nat}
    {x : Instruction α} (s : Int) (hb : before < wordModulus) (ha : after < wordModulus)
    (h : c.output compile step o unit before after p = .ok (x, q)) :
    c.Fits step before after ⟨o, unit, s⟩ := by
  induction o using ChannelOutput.induct generalizing unit before after x q s with
  | constant value =>
    apply fits_of_not_enters
    rintro y ⟨⟩
  | laneValues lane default =>
    apply fits_of_not_enters
    rintro y ⟨⟩
  | deviceTrigger device default ih =>
    rcases output_deviceTrigger_eq_ok h with ⟨hd, _⟩ | ⟨other, hd, rfl, hother⟩
    . apply fits_of_not_enters
      rintro y ⟨hn⟩
      rw [hd] at hn
      contradiction
    . refine (fits_iff_of_enters (.default hd) rfl rfl (isCounted_of_shift_eq hb ha rfl)).mpr ?_
      exact ih other rfl s hb ha hother
  | calibrated input inputUnit outputUnit points ih =>
    obtain ⟨y, calibration, hy, _, _⟩ := output_calibrated_eq_ok h
    refine (fits_iff_of_enters .calibrated rfl rfl (isCounted_of_shift_eq hb ha rfl)).mpr ?_
    exact ih s hb ha hy
  | advance input shift ih =>
    obtain ⟨ticks, ht, hle, hlt, h⟩ := output_advance_eq_ok_iff.mp h
    refine (fits_iff_of_enters (.advance ht) ?_ ?_ ⟨?_, ?_⟩).mpr
      (ih (s + ticks) (Nat.lt_of_le_of_lt (Nat.sub_le _ _) hb) hlt h)
    all_goals
      dsimp only
      omega
  | delay input shift ih =>
    obtain ⟨ticks, ht, hle, hlt, h⟩ := output_delay_eq_ok_iff.mp h
    refine (fits_iff_of_enters (.delay ht) ?_ ?_ ⟨?_, ?_⟩).mpr
      (ih (s - ticks) hlt (Nat.lt_of_le_of_lt (Nat.sub_le _ _) ha) h)
    all_goals
      dsimp only
      omega

end ShotContext

end Waveplan
