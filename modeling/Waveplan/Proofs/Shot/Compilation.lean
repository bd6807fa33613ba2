import Waveplan.Proofs.Calibration
import Waveplan.Shot.Sequencers

/-!
This module contains when steps of a compilation succeed and fail.
-/

namespace Waveplan

/--
The progress after a lane has been read.
-/
def Progress.read {α : Type} (p : Progress α) (lane : String) : Progress α :=
  { p with usedLanes := p.usedLanes.insert lane () }

/--
The progress after a sequencer has been compiled.
-/
def Progress.finish {α : Type} (p : Progress α) (name : String) (x : Instruction α) : Progress α :=
  { p with compiled := p.compiled.insert name x }

namespace Compilation

variable {α β γ : Type} {p q : Progress α} {b : β}

theorem bind_eq_ok_iff {x : Compilation α γ} {f : γ → Compilation α β} :
    (x >>= f) p = .ok (b, q) ↔ ∃ a r, x p = .ok (a, r) ∧ f a r = .ok (b, q) := by
  have hb : (x >>= f) p = x p >>= fun r => f r.1 r.2 := rfl
  rw [hb, Outcome.bind_eq_ok_iff]
  exact Prod.exists

theorem ofExcept_eq_ok_iff {result : Except (CompilationError α) β} :
    ofExcept result p = .ok (b, q) ↔ result = .ok b ∧ q = p := by
  cases result with
  | error e => simp [ofExcept, Except.map]
  | ok a => simp [ofExcept, Except.map, eq_comm]

theorem ofExcept_bind_eq_ok_iff {x : Except (CompilationError α) γ} {f : γ → Compilation α β} :
    (ofExcept x >>= f) p = .ok (b, q) ↔ ∃ a, x = .ok a ∧ f a p = .ok (b, q) := by
  rw [bind_eq_ok_iff]
  simp only [ofExcept_eq_ok_iff]
  constructor
  . rintro ⟨a, r, ⟨hx, rfl⟩, h⟩
    exact ⟨a, hx, h⟩
  . rintro ⟨a, hx, h⟩
    exact ⟨a, p, ⟨hx, rfl⟩, h⟩

theorem ofExcept_ok_bind {a : γ} {f : γ → Compilation α β} : (ofExcept (.ok a) >>= f) = f a := rfl

theorem get_bind {f : Progress α → Compilation α β} : (get >>= f) p = f p p := rfl

theorem get_bind_eq_ok_iff {f : Progress α → Compilation α β} :
    (get >>= f) p = .ok (b, q) ↔ f p p = .ok (b, q) := Iff.rfl

theorem modify_bind_eq_ok_iff {g : Progress α → Progress α} {f : Unit → Compilation α β} :
    (modify g >>= f) p = .ok (b, q) ↔ f () (g p) = .ok (b, q) := Iff.rfl

theorem pure_eq_ok_iff {a : β} :
    (pure a : Compilation α β) p = .ok (b, q) ↔ b = a ∧ q = p := by
  have hp : (pure a : Compilation α β) p = .ok (a, p) := rfl
  rw [hp, Except.ok.injEq, Prod.mk.injEq, eq_comm, @eq_comm _ p]

theorem throw_ne_ok {e : CompilationError α} : (throw e : Compilation α β) p ≠ .ok (b, q) := by
  simp [throw, throwThe, MonadExceptOf.throw, StateT.lift, bind, Except.bind]

/--
A branch behind a check succeeds where the check passes and the branch does.
-/
theorem ite_throw_eq_ok_iff {P : Prop} [Decidable P] {e : CompilationError α}
    {x : Compilation α β} :
    (if P then throw e else x) p = .ok (b, q) ↔ ¬P ∧ x p = .ok (b, q) := by
  split
  . next h => exact iff_of_false throw_ne_ok fun h' => h'.1 h
  . next h => exact (and_iff_right h).symm

section Failure

open Outcome

variable {P : CompilationError α → Prop}

theorem failsWith_bind_iff {x : Compilation α γ} {f : γ → Compilation α β} :
    FailsWith P ((x >>= f) p)
      ↔ FailsWith P (x p) ∨ ∃ a r, x p = .ok (a, r) ∧ FailsWith P (f a r) := by
  have hb : (x >>= f) p = x p >>= fun r => f r.1 r.2 := rfl
  rw [hb, Outcome.failsWith_bind_iff, Prod.exists]

theorem failsWith_ofExcept_iff {x : Except (CompilationError α) β} :
    FailsWith P (ofExcept x p) ↔ FailsWith P x := by
  cases x <;> simp [ofExcept, Except.map]

theorem failsWith_ofExcept_bind_iff {x : Except (CompilationError α) γ}
    {f : γ → Compilation α β} :
    FailsWith P ((ofExcept x >>= f) p)
      ↔ FailsWith P x ∨ ∃ a, x = .ok a ∧ FailsWith P (f a p) := by
  cases x <;> simp [failsWith_bind_iff, ofExcept, Except.map]

theorem failsWith_get_bind_iff {f : Progress α → Compilation α β} :
    FailsWith P ((get >>= f) p) ↔ FailsWith P (f p p) :=
  Iff.rfl

theorem failsWith_throw_iff {e : CompilationError α} :
    FailsWith P ((throw e : Compilation α β) p) ↔ P e :=
  failsWith_error_iff

theorem failsWith_pure_iff {b : β} : FailsWith P ((pure b : Compilation α β) p) ↔ False :=
  failsWith_ok_iff

end Failure

end Compilation

namespace ShotContext

variable {α : Type} [Number α] [Kernel α] {c : ShotContext α} {step : TimeStep} {m n before after : Nat}

theorem shifts_advance_eq_ok_iff {input : ChannelOutput α} {shift : Expression}
    {advance delay : Nat} :
    c.shifts step (.advance input shift) = .ok (advance, delay)
      ↔ ∃ inner ticks, c.shifts step input = .ok (inner, delay)
        ∧ c.shiftTicks shift step = .ok ticks ∧ inner + ticks < wordModulus
        ∧ inner + ticks = advance := by
  rw [shifts]
  simp only [Outcome.bind_eq_ok_iff, Word.checked_eq_ok_iff, Except.ok.injEq, Prod.mk.injEq]
  constructor
  . rintro ⟨⟨inner, _⟩, hinput, ticks, hticks, _, ⟨hlt, rfl⟩, rfl, rfl⟩
    exact ⟨inner, ticks, hinput, hticks, hlt, rfl⟩
  . rintro ⟨inner, ticks, hinput, hticks, hlt, rfl⟩
    exact ⟨_, hinput, ticks, hticks, _, ⟨hlt, rfl⟩, rfl, rfl⟩

theorem shifts_delay_eq_ok_iff {input : ChannelOutput α} {shift : Expression}
    {advance delay : Nat} :
    c.shifts step (.delay input shift) = .ok (advance, delay)
      ↔ ∃ inner ticks, c.shifts step input = .ok (advance, inner)
        ∧ c.shiftTicks shift step = .ok ticks ∧ inner + ticks < wordModulus
        ∧ inner + ticks = delay := by
  rw [shifts]
  simp only [Outcome.bind_eq_ok_iff, Word.checked_eq_ok_iff, Except.ok.injEq, Prod.mk.injEq]
  constructor
  . rintro ⟨⟨_, inner⟩, hinput, ticks, hticks, _, ⟨hlt, rfl⟩, rfl, rfl⟩
    exact ⟨inner, ticks, hinput, hticks, hlt, rfl⟩
  . rintro ⟨inner, ticks, hinput, hticks, hlt, rfl⟩
    exact ⟨_, hinput, ticks, hticks, _, ⟨hlt, rfl⟩, rfl, rfl⟩

theorem shifts_lt {o : ChannelOutput α} {advance delay : Nat}
    (h : c.shifts step o = .ok (advance, delay)) : advance < wordModulus ∧ delay < wordModulus := by
  induction o using ChannelOutput.induct generalizing advance delay with
  | constant _ | laneValues _ _ | deviceTrigger _ _ =>
    rw [shifts] at h
    cases h
    decide
  | calibrated input _ _ _ ih => exact ih h
  | advance input shift ih =>
    obtain ⟨_, _, hinput, _, hlt, rfl⟩ := shifts_advance_eq_ok_iff.mp h
    exact ⟨hlt, (ih hinput).2⟩
  | delay input shift ih =>
    obtain ⟨_, _, hinput, _, hlt, rfl⟩ := shifts_delay_eq_ok_iff.mp h
    exact ⟨(ih hinput).1, hlt⟩

theorem foldlM_shifts_eq_ok_iff {channels : List (Channel α)} :
    channels.foldlM (fun (before, after) channel => do
        let (advance, delay) ← c.shifts step channel.output
        .ok (Nat.max before advance, Nat.max after delay)) (m, n) = .ok (before, after)
      ↔ ∃ shifts, channels.mapM (fun channel => c.shifts step channel.output) = .ok shifts
        ∧ (shifts.map Prod.fst).foldl max m = before
        ∧ (shifts.map Prod.snd).foldl max n = after := by
  induction channels generalizing m n with
  | nil => simp [pure, Except.pure]
  | cons channel channels ih =>
    rw [List.foldlM_cons, List.mapM_cons, Outcome.bind_eq_ok_iff]
    simp only [Outcome.bind_eq_ok_iff]
    constructor
    . rintro ⟨r, ⟨s, hs, hr⟩, h⟩
      cases hr
      obtain ⟨shifts, hshifts, hb, ha⟩ := ih.mp h
      exact ⟨s :: shifts, ⟨s, hs, shifts, hshifts, rfl⟩, hb, ha⟩
    . rintro ⟨_, ⟨s, hs, shifts, hshifts, h⟩, hb, ha⟩
      cases h
      exact ⟨_, ⟨s, hs, rfl⟩, ih.mpr ⟨shifts, hshifts, hb, ha⟩⟩

theorem maxShifts_eq_ok_iff {channels : List (Channel α)} :
    c.maxShifts step channels = .ok (before, after)
      ↔ ∃ shifts, channels.mapM (fun channel => c.shifts step channel.output) = .ok shifts
        ∧ (shifts.map Prod.fst).foldl max 0 = before
        ∧ (shifts.map Prod.snd).foldl max 0 = after :=
  foldlM_shifts_eq_ok_iff

theorem maxShifts_lt {channels : List (Channel α)}
    (h : c.maxShifts step channels = .ok (before, after)) :
    before < wordModulus ∧ after < wordModulus := by
  obtain ⟨shifts, hshifts, rfl, rfl⟩ := maxShifts_eq_ok_iff.mp h
  have hlt : ∀ s ∈ shifts, s.1 < wordModulus ∧ s.2 < wordModulus :=
    Outcome.forall_mem_of_forall₂ ((Outcome.mapM_eq_ok_iff.mp hshifts).imp fun _ _ h => shifts_lt h)
  constructor
  . refine List.foldlRecOn _ _ (motive := (· < wordModulus)) (by decide) fun m hm n hn => ?_
    obtain ⟨s, hs, rfl⟩ := List.mem_map.mp hn
    exact max_lt hm (hlt s hs).1
  . refine List.foldlRecOn _ _ (motive := (· < wordModulus)) (by decide) fun m hm n hn => ?_
    obtain ⟨s, hs, rfl⟩ := List.mem_map.mp hn
    exact max_lt hm (hlt s hs).2

theorem shifts_le_maxShifts {channels : List (Channel α)}
    (h : c.maxShifts step channels = .ok (before, after)) {channel : Channel α}
    (hm : channel ∈ channels) : ∃ advance delay,
      c.shifts step channel.output = .ok (advance, delay) ∧ advance ≤ before ∧ delay ≤ after := by
  obtain ⟨shifts, hshifts, rfl, rfl⟩ := maxShifts_eq_ok_iff.mp h
  obtain ⟨⟨advance, delay⟩, hs, hc⟩ := Outcome.exists_mem_of_mapM_eq_ok hshifts hm
  refine ⟨advance, delay, hc, ?_, ?_⟩
  . rw [List.foldl_max]
    exact Nat.le_trans (List.le_max?_getD_of_mem (List.mem_map_of_mem hs)) (Nat.le_max_right _ _)
  . rw [List.foldl_max]
    exact Nat.le_trans (List.le_max?_getD_of_mem (List.mem_map_of_mem hs)) (Nat.le_max_right _ _)

section Output

variable (c step) (compile : String → Compilation α (Instruction α)) (unit : Option PhysicalUnit)
  (before after)

theorem output_constant (value : Expression) :
    c.output compile step (.constant value) unit before after
      = .ofExcept (c.constant value step unit before after) := rfl

theorem output_laneValues (name : String) (default : Option Expression) :
    c.output compile step (.laneValues name default) unit before after
      = match c.lanes.get? name, default with
        | some lane, _ => do
          let x ← Compilation.ofExcept (c.laneWaveform name lane step unit)
          modify fun progress => { progress with usedLanes := progress.usedLanes.insert name () }
          .ofExcept ((padWithEdges x before after).mapError .instruction)
        | none, some value => .ofExcept (c.constant value step unit before after)
        | none, none =>
          throw (.missingLane name (ChannelOutput.laneValues (α := α) name default).text) := rfl

theorem output_deviceTrigger (device : String) (default : Option (ChannelOutput α)) :
    c.output compile step (.deviceTrigger device default) unit before after
      = if c.devices.contains device then
          match unit with
          | some unit => throw (.triggerWithUnit device unit)
          | none => do
            let trigger ← c.deviceTrigger compile device step
            .ofExcept (Clock.play [.level false before, trigger, .level false after])
        else
          match default with
          | some other => c.output compile step other unit before after
          | none =>
            throw (.unknownDevice device (ChannelOutput.deviceTrigger device default).text) := by
  cases default <;> rfl

theorem output_calibrated (input : ChannelOutput α) (inputUnit outputUnit : Option PhysicalUnit)
    (points : List (α × α)) :
    c.output compile step (.calibrated input inputUnit outputUnit points) unit before after
      = (do
        let x ← c.output compile step input inputUnit before after
        let calibration ← Compilation.ofExcept (calibrationIn points outputUnit unit)
        .ofExcept (calibrated calibration x)) := rfl

theorem output_advance (input : ChannelOutput α) (shift : Expression) :
    c.output compile step (.advance input shift) unit before after
      = (do
        let moved ← Compilation.ofExcept (c.moveTicks step shift before after .advanceTooLarge)
        c.output compile step input unit moved.1 moved.2) := rfl

theorem output_delay (input : ChannelOutput α) (shift : Expression) :
    c.output compile step (.delay input shift) unit before after
      = (do
        let moved ← Compilation.ofExcept (c.moveTicks step shift after before .delayTooLarge)
        c.output compile step input unit moved.2 moved.1) := rfl

end Output

section Success

theorem constant_eq_ok_iff {value : Expression} {unit : Option PhysicalUnit}
    {x : Instruction α} :
    c.constant value step unit before after = .ok x
      ↔ c.ticks step + (before + after) < wordModulus
        ∧ ∃ scalar, c.evaluate value unit = .ok scalar
          ∧ x = .hold scalar (c.ticks step + (before + after)) := by
  simp only [constant, Outcome.bind_eq_ok_iff, Word.checked_eq_ok_iff, Except.ok.injEq]
  constructor
  . rintro ⟨_, ⟨_, rfl⟩, _, ⟨hlt, rfl⟩, scalar, hscalar, rfl⟩
    exact ⟨hlt, scalar, hscalar, rfl⟩
  . rintro ⟨hlt, scalar, hscalar, rfl⟩
    exact ⟨_, ⟨by omega, rfl⟩, _, ⟨hlt, rfl⟩, scalar, hscalar, rfl⟩

omit [Kernel α] in
theorem calibrated_eq_ok_iff {calibration : Calibration α} {x y : Instruction α} :
    calibrated calibration x = .ok y ↔ calibration.apply x = .ok y ∧ y.length < wordModulus := by
  simp only [calibrated, Outcome.bind_eq_ok_iff, Outcome.mapError_eq_ok_iff]
  constructor
  . rintro ⟨z, hz, h⟩
    obtain ⟨hlt, rfl⟩ := (Instruction.fit_eq_ok_iff (Calibration.typed_apply hz).normal).mp h
    exact ⟨hz, hlt⟩
  . rintro ⟨hy, hlt⟩
    exact ⟨y, hy, Instruction.fit_of_lt (Calibration.typed_apply hy).normal hlt⟩

variable {compile : String → Compilation α (Instruction α)} {unit : Option PhysicalUnit}
  {p q : Progress α} {x : Instruction α}

omit [Kernel α] in
theorem deviceTrigger_eq_ok {device : String}
    (h : c.deviceTrigger compile device step p = .ok (x, q)) :
    (∃ config slave, c.devices.get? device = some (.sequencer config)
        ∧ compile device p = .ok (slave, q) ∧ c.sequencerTrigger device config slave step = .ok x)
      ∨ (∀ config, c.devices.get? device ≠ some (.sequencer config)) ∧ q = p
        ∧ (c.cameraTrigger device step = .ok x
          ∨ Clock.halfPulse device (c.ticks step) = .ok x) := by
  unfold deviceTrigger at h
  match hd : c.devices.get? device with
  | some (.sequencer config) =>
    rw [hd] at h
    obtain ⟨slave, r, hslave, h⟩ := Compilation.bind_eq_ok_iff.mp h
    obtain ⟨hx, rfl⟩ := Compilation.ofExcept_eq_ok_iff.mp h
    exact .inl ⟨config, slave, rfl, hslave, hx⟩
  | some .camera =>
    rw [hd] at h
    obtain ⟨hx, rfl⟩ := Compilation.ofExcept_eq_ok_iff.mp h
    exact .inr ⟨nofun, rfl, .inl hx⟩
  | some .other | none =>
    rw [hd] at h
    obtain ⟨hx, rfl⟩ := Compilation.ofExcept_eq_ok_iff.mp h
    exact .inr ⟨nofun, rfl, .inr hx⟩

theorem output_constant_eq_ok_iff {value : Expression} :
    c.output compile step (.constant value) unit before after p = .ok (x, q)
      ↔ c.constant value step unit before after = .ok x ∧ q = p :=
  Compilation.ofExcept_eq_ok_iff

theorem output_laneValues_eq_ok {name : String} {default : Option Expression}
    (h : c.output compile step (.laneValues name default) unit before after p = .ok (x, q)) :
    (∃ lane y, c.lanes.get? name = some lane ∧ c.laneWaveform name lane step unit = .ok y
        ∧ padWithEdges y before after = .ok x ∧ q = p.read name)
      ∨ ∃ value, c.lanes.get? name = none ∧ default = some value
        ∧ c.constant value step unit before after = .ok x ∧ q = p := by
  rw [output_laneValues] at h
  match hl : c.lanes.get? name, default with
  | some lane, _ =>
    simp only [hl] at h
    obtain ⟨y, hy, h⟩ := Compilation.ofExcept_bind_eq_ok_iff.mp h
    have h := Compilation.modify_bind_eq_ok_iff.mp h
    obtain ⟨hx, rfl⟩ := Compilation.ofExcept_eq_ok_iff.mp h
    exact .inl ⟨lane, y, rfl, hy, Outcome.mapError_eq_ok_iff.mp hx, rfl⟩
  | none, some value =>
    simp only [hl] at h
    obtain ⟨hx, rfl⟩ := Compilation.ofExcept_eq_ok_iff.mp h
    exact .inr ⟨value, rfl, rfl, hx, rfl⟩
  | none, none =>
    simp only [hl] at h
    exact absurd h Compilation.throw_ne_ok

theorem output_deviceTrigger_eq_ok {device : String} {default : Option (ChannelOutput α)}
    (h : c.output compile step (.deviceTrigger device default) unit before after p = .ok (x, q)) :
    (c.devices.contains device ∧ unit = none
        ∧ ∃ y, c.deviceTrigger compile device step p = .ok (y, q)
          ∧ Clock.play [.level false before, y, .level false after] = .ok x)
      ∨ ∃ other, c.devices.contains device = false ∧ default = some other
        ∧ c.output compile step other unit before after p = .ok (x, q) := by
  rw [output_deviceTrigger] at h
  split at h
  . next hd =>
    cases unit with
    | some unit => exact absurd h Compilation.throw_ne_ok
    | none =>
      obtain ⟨y, r, hy, h⟩ := Compilation.bind_eq_ok_iff.mp h
      obtain ⟨hx, rfl⟩ := Compilation.ofExcept_eq_ok_iff.mp h
      exact .inl ⟨hd, rfl, y, hy, hx⟩
  . next hd =>
    cases default with
    | some other => exact .inr ⟨other, Bool.eq_false_iff.mpr hd, rfl, h⟩
    | none => exact absurd h Compilation.throw_ne_ok

theorem output_calibrated_eq_ok {input : ChannelOutput α}
    {inputUnit outputUnit : Option PhysicalUnit} {points : List (α × α)}
    (h : c.output compile step (.calibrated input inputUnit outputUnit points) unit before after p
      = .ok (x, q)) :
    ∃ y calibration, c.output compile step input inputUnit before after p = .ok (y, q)
      ∧ calibrationIn points outputUnit unit = .ok calibration
        ∧ calibrated calibration y = .ok x := by
  rw [output_calibrated] at h
  obtain ⟨y, r, hy, h⟩ := Compilation.bind_eq_ok_iff.mp h
  obtain ⟨calibration, hc, h⟩ := Compilation.ofExcept_bind_eq_ok_iff.mp h
  obtain ⟨hx, rfl⟩ := Compilation.ofExcept_eq_ok_iff.mp h
  exact ⟨y, calibration, hy, hc, hx⟩

theorem moveTicks_eq_ok_iff {shift : Expression} {source target : Nat}
    {tooLarge : Nat → Nat → CompilationError α} {moved : Nat × Nat} :
    c.moveTicks step shift source target tooLarge = .ok moved
      ↔ ∃ ticks, c.shiftTicks shift step = .ok ticks ∧ ticks ≤ source
        ∧ target + ticks < wordModulus ∧ (source - ticks, target + ticks) = moved := by
  rw [moveTicks, Outcome.bind_eq_ok_iff]
  refine exists_congr fun ticks => and_congr_right fun _ => ?_
  split
  . next h => exact iff_of_false nofun fun h' => absurd h'.1 (Nat.not_le_of_lt h)
  . next h =>
    simp only [Outcome.bind_eq_ok_iff, Word.checked_eq_ok_iff, and_assoc, exists_and_left,
      exists_eq_left', Except.ok.injEq, Nat.le_of_not_lt h, true_and]

theorem moveTicks_bind_eq_ok_iff {shift : Expression} {source target : Nat}
    {tooLarge : Nat → Nat → CompilationError α}
    {rest : Nat × Nat → Compilation α (Instruction α)} :
    (Compilation.ofExcept (c.moveTicks step shift source target tooLarge) >>= rest) p = .ok (x, q)
      ↔ ∃ ticks, c.shiftTicks shift step = .ok ticks ∧ ticks ≤ source
        ∧ target + ticks < wordModulus ∧ rest (source - ticks, target + ticks) p = .ok (x, q) := by
  simp only [Compilation.ofExcept_bind_eq_ok_iff, moveTicks_eq_ok_iff]
  constructor
  . rintro ⟨_, ⟨ticks, ht, hle, hlt, rfl⟩, h⟩
    exact ⟨ticks, ht, hle, hlt, h⟩
  . rintro ⟨ticks, ht, hle, hlt, h⟩
    exact ⟨_, ⟨ticks, ht, hle, hlt, rfl⟩, h⟩

theorem output_advance_eq_ok_iff {input : ChannelOutput α} {shift : Expression} :
    c.output compile step (.advance input shift) unit before after p = .ok (x, q)
      ↔ ∃ ticks, c.shiftTicks shift step = .ok ticks ∧ ticks ≤ before
        ∧ after + ticks < wordModulus
        ∧ c.output compile step input unit (before - ticks) (after + ticks) p = .ok (x, q) := by
  rw [output_advance, moveTicks_bind_eq_ok_iff]

theorem output_delay_eq_ok_iff {input : ChannelOutput α} {shift : Expression} :
    c.output compile step (.delay input shift) unit before after p = .ok (x, q)
      ↔ ∃ ticks, c.shiftTicks shift step = .ok ticks ∧ ticks ≤ after
        ∧ before + ticks < wordModulus
        ∧ c.output compile step input unit (before + ticks) (after - ticks) p = .ok (x, q) := by
  rw [output_delay, moveTicks_bind_eq_ok_iff]

end Success

theorem channelWaveform_eq_ok_iff {compile : String → Compilation α (Instruction α)}
    {channel : Channel α} {p q : Progress α} {x : Instruction α} :
    c.channelWaveform compile step channel before after p = .ok (x, q)
      ↔ ∃ y, c.output compile step channel.output channel.unit before after p = .ok (y, q)
        ∧ y.asType (.scalar channel.kind) = .ok x := by
  rw [channelWaveform, Compilation.bind_eq_ok_iff]
  simp only [Compilation.ofExcept_eq_ok_iff, Outcome.mapError_eq_ok_iff]
  constructor
  . rintro ⟨y, r, hy, hx, rfl⟩
    exact ⟨y, hy, hx⟩
  . rintro ⟨y, hy, hx⟩
    exact ⟨y, q, hy, hx, rfl⟩

theorem channelWaveforms_cons_eq_ok_iff {compile : String → Compilation α (Instruction α)}
    {name : String} {number : Nat} {channel : Channel α} {channels : List (Channel α)}
    {p q : Progress α} {ys : List (Instruction α)} :
    c.channelWaveforms compile name step before after number (channel :: channels) p = .ok (ys, q)
      ↔ ∃ x r y rest, c.channelWaveform compile step channel before after p = .ok (x, r)
        ∧ x.withName (channelName number) = .ok y
        ∧ c.channelWaveforms compile name step before after (number + 1) channels r
          = .ok (rest, q)
        ∧ ys = y :: rest := by
  rw [channelWaveforms, Compilation.bind_eq_ok_iff]
  constructor
  . rintro ⟨x, r, hx, h⟩
    obtain ⟨y, hy, h⟩ := Compilation.ofExcept_bind_eq_ok_iff.mp h
    obtain ⟨rest, t, hrest, h⟩ := Compilation.bind_eq_ok_iff.mp h
    obtain ⟨rfl, rfl⟩ := Compilation.pure_eq_ok_iff.mp h
    have hx := Outcome.mapError_eq_ok_iff.mp hx
    exact ⟨x, r, y, rest, hx, Outcome.mapError_eq_ok_iff.mp hy, hrest, rfl⟩
  . rintro ⟨x, r, y, rest, hx, hy, hrest, rfl⟩
    refine ⟨x, r, Outcome.mapError_eq_ok_iff.mpr hx, ?_⟩
    apply Compilation.ofExcept_bind_eq_ok_iff.mpr
    refine ⟨y, Outcome.mapError_eq_ok_iff.mpr hy, ?_⟩
    exact Compilation.bind_eq_ok_iff.mpr ⟨rest, q, hrest, rfl⟩

theorem channels_eq_ok_iff {compile : String → Compilation α (Instruction α)} {name : String}
    {config : Sequencer α} {p q : Progress α} {x : Instruction α} :
    c.channels compile name config p = .ok (x, q)
      ↔ ∃ before after ys, c.maxShifts config.timeStep config.channels = .ok (before, after)
        ∧ c.channelWaveforms compile name config.timeStep before after 0 config.channels p
          = .ok (ys, q)
        ∧ ys ≠ [] ∧ Instruction.stackAll ys = .ok x := by
  rw [channels, Compilation.ofExcept_bind_eq_ok_iff]
  simp only [Compilation.bind_eq_ok_iff, Compilation.ite_throw_eq_ok_iff,
    Compilation.ofExcept_eq_ok_iff, Outcome.mapError_eq_ok_iff, List.isEmpty_iff, Prod.exists]
  constructor
  . rintro ⟨before, after, hs, ys, r, hys, hne, hx, rfl⟩
    exact ⟨before, after, ys, hs, hys, hne, hx⟩
  . rintro ⟨before, after, ys, hs, hys, hne, hx⟩
    exact ⟨before, after, hs, ys, q, hys, hne, hx, rfl⟩

theorem length_erase_lt {pending : List String} {name : String} (h : name ∈ pending) :
    (pending.erase name).length < pending.length := by
  rw [List.length_erase_of_mem h]
  exact Nat.sub_one_lt_of_lt (List.length_pos_of_mem h)

/--
The compilation of a sequencer succeeds where it has been compiled before, or where its channels can
be put together while it is not pending.
-/
theorem compileSequencer_eq_ok_iff {pending : List String} {name : String} {p q : Progress α}
    {x : Instruction α} :
    c.compileSequencer pending name p = .ok (x, q)
      ↔ (p.compiled.get? name = some x ∧ q = p)
        ∨ ∃ config r, p.compiled.get? name = none
          ∧ (c.devices.get? name).bind Device.sequencer? = some config ∧ name ∈ pending
          ∧ c.channels (c.compileSequencer (pending.erase name)) name config p = .ok (x, r)
          ∧ q = r.finish name x := by
  rw [compileSequencer, Compilation.get_bind_eq_ok_iff]
  cases hx : p.compiled.get? name with
  | some y => simp [Compilation.pure_eq_ok_iff, @eq_comm _ y]
  | none =>
    cases hconfig : (c.devices.get? name).bind Device.sequencer? with
    | none => simp [Compilation.throw_ne_ok]
    | some config =>
      dsimp only
      split
      . next hmem =>
        rw [Compilation.bind_eq_ok_iff]
        constructor
        . rintro ⟨y, r, hy, h⟩
          have h := Compilation.modify_bind_eq_ok_iff.mp h
          obtain ⟨rfl, rfl⟩ := Compilation.pure_eq_ok_iff.mp h
          exact .inr ⟨config, r, rfl, rfl, hmem, hy, rfl⟩
        . rintro (⟨h, _⟩ | ⟨_, r, _, hother, _, hy, rfl⟩)
          . contradiction
          . cases hother
            exact ⟨x, r, hy, rfl⟩
      . next hmem => simp [Compilation.throw_ne_ok, hmem]

end ShotContext

end Waveplan
