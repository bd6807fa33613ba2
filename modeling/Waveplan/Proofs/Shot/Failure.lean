import Waveplan.Proofs.Instruction.Tree
import Waveplan.Proofs.Shot.Descent

/-!
This module contains where a compilation fails: the errors that are looked for inside of channels
come from shifts without room, or from the sequencers that outputs trigger.
-/

namespace Waveplan

open Outcome

namespace CompilationError

variable {α : Type}

/--
An error of one output: neither of the room for its shifts nor of a sequencer that it triggers.
-/
def IsPlain : CompilationError α → Prop
  | .triggerCycle _ | .unsupportedTrigger _ _ | .channel _ _ _ _ => False
  | .advanceTooLarge _ _ | .delayTooLarge _ _ => False
  | _ => True

/--
A plain error of something else than an expression that is written in an output.
-/
def IsInert : CompilationError α → Prop
  | .evaluation _ _ | .negativeShift _ => False
  | e => e.IsPlain

theorem IsInert.isPlain {e : CompilationError α} (h : e.IsInert) : e.IsPlain := by
  cases e <;> first | exact h | exact h.elim

/--
Errors that are looked for inside of channels, and that no output raises by itself unless they are
those of shifts without `room`.
-/
structure IsTransparent (P : CompilationError α → Prop) (room : Prop) : Prop where
  channel {sequencer : String} {number : Nat} {description : String} {e : CompilationError α} :
    P (.channel sequencer number description e) ↔ P e
  advance {ticks available : Nat} : P (.advanceTooLarge ticks available) ↔ room
  delay {ticks available : Nat} : P (.delayTooLarge ticks available) ↔ room
  not_of_isPlain {e : CompilationError α} : e.IsPlain → ¬P e

theorem not_failsWith_of_isInert {β : Type} {P : CompilationError α → Prop}
    (hP : ∀ e, e.IsInert → ¬P e) {e : CompilationError α} (he : e.IsInert) :
    ¬FailsWith P (.error e : Except (CompilationError α) β) :=
  fun h => hP e he (failsWith_error_iff.mp h)

theorem forall_isInert {P : CompilationError α → Prop} (hP : ∀ e, e.IsPlain → ¬P e) :
    ∀ e : CompilationError α, e.IsInert → ¬P e :=
  fun e he => hP e he.isPlain

theorem not_failsWith_checked {P : CompilationError α → Prop} (hP : ∀ e, e.IsInert → ¬P e)
    (n : Nat) : ¬FailsWith P (Word.checked n : Except (CompilationError α) Nat) := by
  unfold Word.checked
  split
  . simp
  . exact not_failsWith_of_isInert hP trivial

end CompilationError

open CompilationError (IsPlain IsInert IsTransparent forall_isInert not_failsWith_of_isInert
  not_failsWith_checked)

namespace Clock

variable {α : Type} [Number α] {P : CompilationError α → Prop} (hP : ∀ e, e.IsInert → ¬P e)

include hP

theorem not_failsWith_play (xs : List (Instruction α)) : ¬FailsWith P (play xs) :=
  not_failsWith_mapError fun _ => hP _ trivial

theorem not_failsWith_pulse (slave master : TimeStep) :
    ¬FailsWith P (pulse slave master : Except (CompilationError α) (Instruction α)) := by
  apply not_failsWith_bind
  . apply not_failsWith_bind (not_failsWith_checked hP _)
    intro shortest
    split
    . exact not_failsWith_of_isInert hP trivial
    . split
      . exact not_failsWith_of_isInert hP trivial
      . simp
  . intro _
    exact not_failsWith_play hP _

theorem not_failsWith_halfPulse (device : String) (length : Nat) :
    ¬FailsWith P (halfPulse device length : Except (CompilationError α) (Instruction α)) := by
  unfold halfPulse
  dsimp only
  split
  . exact not_failsWith_of_isInert hP trivial
  . exact not_failsWith_play hP _

theorem not_failsWith_adaptive (pulse target : Instruction α) :
    ¬FailsWith P (adaptive pulse target) := by
  induction target with
  | pattern p => simp [adaptive]
  | ramp r =>
    rw [adaptive]
    exact not_failsWith_of_isInert hP trivial
  | concatenated xs ih =>
    rw [adaptive, adaptiveAll_eq]
    apply not_failsWith_bind (not_failsWith_mapM ih)
    intro ys
    exact not_failsWith_play hP _
  | repeated n body ih =>
    rw [adaptive]
    split
    . apply not_failsWith_bind (not_failsWith_checked hP _)
      intro idle
      exact not_failsWith_play hP _
    . exact not_failsWith_of_isInert hP trivial

theorem not_failsWith_follow (pulse target : Instruction α) :
    ¬FailsWith P (follow pulse target) := by
  apply not_failsWith_bind (not_failsWith_adaptive hP _ _)
  intro clock
  exact not_failsWith_mapError fun _ => hP _ trivial

end Clock

namespace ShotContext

variable {α : Type} [Number α] {c : ShotContext α} {step : TimeStep}
  {P : CompilationError α → Prop}

section Plain

variable [Kernel α] (hP : ∀ e, e.IsPlain → ¬P e)

include hP

theorem not_failsWith_evaluate (e : Expression) (unit : Option PhysicalUnit) :
    ¬FailsWith P (c.evaluate e unit) :=
  not_failsWith_mapError fun _ => hP _ trivial

theorem not_failsWith_shiftTicks (shift : Expression) : ¬FailsWith P (c.shiftTicks shift step) := by
  apply not_failsWith_bind (not_failsWith_evaluate hP _ _)
  intro duration
  dsimp only
  split
  . exact fun h => hP (.negativeShift _) trivial (failsWith_error_iff.mp h)
  . simp

theorem not_failsWith_shifts (o : ChannelOutput α) : ¬FailsWith P (c.shifts step o) := by
  induction o using ChannelOutput.induct with
  | constant value => simp [shifts]
  | laneValues lane default => simp [shifts]
  | deviceTrigger device default => simp [shifts]
  | calibrated input _ _ _ ih => simpa [shifts] using ih
  | advance input shift ih | delay input shift ih =>
    rw [shifts]
    apply not_failsWith_bind ih
    intro s
    apply not_failsWith_bind (not_failsWith_shiftTicks hP shift)
    intro ticks
    apply not_failsWith_bind (not_failsWith_checked (forall_isInert hP) _)
    simp

theorem not_failsWith_maxShifts (channels : List (Channel α)) :
    ¬FailsWith P (c.maxShifts step channels) := by
  unfold maxShifts
  generalize (0, 0) = room
  induction channels generalizing room with
  | nil => simp [pure, Except.pure]
  | cons channel channels ih =>
    rw [List.foldlM_cons]
    apply not_failsWith_bind
    . apply not_failsWith_bind (not_failsWith_shifts hP _)
      simp
    . intro room
      exact ih room

theorem not_failsWith_constant (value : Expression) (unit : Option PhysicalUnit)
    (before after : Nat) : ¬FailsWith P (c.constant value step unit before after) := by
  apply not_failsWith_bind (not_failsWith_checked (forall_isInert hP) _)
  intro extra
  apply not_failsWith_bind (not_failsWith_checked (forall_isInert hP) _)
  intro length
  apply not_failsWith_bind (not_failsWith_evaluate hP _ _)
  simp

end Plain

section Inert

variable (hP : ∀ e, e.IsInert → ¬P e)

include hP

theorem not_failsWith_laneWaveform [Kernel α] (name : String) (lane : Lane)
    (unit : Option PhysicalUnit) : ¬FailsWith P (c.laneWaveform name lane step unit) := by
  unfold laneWaveform
  split
  . split
    . exact not_failsWith_of_isInert hP trivial
    . exact not_failsWith_mapError fun _ => hP _ trivial
  . exact not_failsWith_mapError fun _ => hP _ trivial
  . exact not_failsWith_of_isInert hP trivial

theorem not_failsWith_cameraTrigger (camera : String) :
    ¬FailsWith P (c.cameraTrigger camera step) := by
  unfold cameraTrigger
  split
  . exact not_failsWith_mapError fun _ => hP _ trivial
  . exact not_failsWith_of_isInert hP trivial
  . simp

theorem not_failsWith_calibrationIn (points : List (α × α))
    (source target : Option PhysicalUnit) : ¬FailsWith P (calibrationIn points source target) := by
  refine not_failsWith_bind (not_failsWith_mapError fun e => hP (.calibration e) trivial) ?_
  intro calibration
  split
  . simp
  . split
    . split
      . simp
      . exact not_failsWith_of_isInert hP trivial
    . exact not_failsWith_of_isInert hP trivial

theorem not_failsWith_calibrated (calibration : Calibration α) (x : Instruction α) :
    ¬FailsWith P (calibrated calibration x) := by
  refine not_failsWith_bind (not_failsWith_mapError fun e => hP (.calibration e) trivial) ?_
  intro y
  exact not_failsWith_mapError fun e => hP (.instruction e) trivial

/--
All that the trigger of a sequencer adds to inert errors is its kind of trigger.
-/
theorem failsWith_sequencerTrigger {name : String} {config : Sequencer α} {slave : Instruction α}
    (h : FailsWith P (c.sequencerTrigger name config slave step)) :
    P (.unsupportedTrigger name config.trigger) := by
  unfold sequencerTrigger at h
  dsimp only at h
  split at h
  . refine absurd h (not_failsWith_bind (Clock.not_failsWith_pulse hP _ _) fun pulse => ?_)
    apply not_failsWith_bind (Clock.not_failsWith_follow hP _ _)
    intro clock
    split
    . exact not_failsWith_mapError fun _ => hP _ trivial
    . simp
  . exact absurd h (Clock.not_failsWith_halfPulse hP _ _)
  . exact failsWith_error_iff.mp h

theorem exists_sequencer_of_failsWith_deviceTrigger
    {compile : String → Compilation α (Instruction α)} {device : String} {p : Progress α}
    (h : FailsWith P (c.deviceTrigger compile device step p)) :
    ∃ config, c.devices.get? device = some (.sequencer config) := by
  unfold deviceTrigger at h
  match hd : c.devices.get? device with
  | some (.sequencer config) => exact ⟨config, rfl⟩
  | some .camera =>
    rw [hd] at h
    exact absurd (Compilation.failsWith_ofExcept_iff.mp h) (not_failsWith_cameraTrigger hP _)
  | some .other | none =>
    rw [hd] at h
    exact absurd (Compilation.failsWith_ofExcept_iff.mp h) (Clock.not_failsWith_halfPulse hP _ _)

end Inert

section Output

variable [Kernel α] {room : Prop} {compile : String → Compilation α (Instruction α)}
  {unit : Option PhysicalUnit} {before after : Nat} {p : Progress α}

theorem not_failsWith_laneValues (hP : ∀ e, e.IsPlain → ¬P e) (name : String)
    (default : Option Expression) :
    ¬FailsWith P (c.output compile step (.laneValues name default) unit before after p) := by
  rw [output_laneValues]
  match c.lanes.get? name, default with
  | some lane, _ =>
    rw [Compilation.failsWith_ofExcept_bind_iff,
      or_iff_right (not_failsWith_laneWaveform (forall_isInert hP) _ _ _)]
    rintro ⟨x, _, h⟩
    exact not_failsWith_mapError (fun e => hP (.instruction e) trivial)
      (Compilation.failsWith_ofExcept_iff.mp h)
  | none, some value =>
    rw [Compilation.failsWith_ofExcept_iff]
    exact not_failsWith_constant hP _ _ _ _
  | none, none =>
    rw [Compilation.failsWith_throw_iff]
    exact hP _ trivial

theorem failsWith_trigger_iff (hP : ∀ e, e.IsPlain → ¬P e) {device : String}
    {default : Option (ChannelOutput α)} {s : Int}
    (h : ∀ y, ¬c.Enters step ⟨.deviceTrigger device default, unit, s⟩ y) :
    FailsWith P (c.output compile step (.deviceTrigger device default) unit before after p)
      ↔ c.FailsAt step room (fun device => FailsWith P (c.deviceTrigger compile device step p))
        before after ⟨.deviceTrigger device default, unit, s⟩ := by
  simp only [FailsAt, not_overruns h, fits_of_not_enters h, triggers_iff h, and_false, false_or,
    true_and]
  rw [output_deviceTrigger]
  split
  . cases unit with
    | some unit =>
      rw [Compilation.failsWith_throw_iff]
      refine iff_of_false (hP _ trivial) ?_
      simp
    | none =>
      rw [Compilation.failsWith_bind_iff, or_iff_left]
      . constructor
        . intro hf
          obtain ⟨config, hg⟩ := exists_sequencer_of_failsWith_deviceTrigger (forall_isInert hP) hf
          exact ⟨device, ⟨default, config, rfl, rfl, hg⟩, hf⟩
        . rintro ⟨_, ⟨_, _, ho, _⟩, hf⟩
          cases ho
          exact hf
      . rintro ⟨x, r, _, hf⟩
        have hf := Compilation.failsWith_ofExcept_iff.mp hf
        exact Clock.not_failsWith_play (forall_isInert hP) _ hf
  . next hd =>
    have hd := Bool.eq_false_iff.mpr hd
    cases default with
    | some other => exact absurd (.default hd) (h _)
    | none =>
      rw [Compilation.failsWith_throw_iff]
      refine iff_of_false (hP _ trivial) ?_
      -- a device that is not configured is no sequencer either
      rintro ⟨d, ⟨default, config, h, _, hg⟩, _⟩
      cases h
      rw [Dictionary.contains, hg] at hd
      contradiction

/--
A shift fails if it cannot be evaluated or if there are too few ticks to take, or else where the
output that is shifted does.
-/
theorem failsWith_moveTicks_bind_iff (hP : ∀ e, e.IsInert → ¬P e) {shift : Expression}
    {source target : Nat} {tooLarge : Nat → Nat → CompilationError α}
    {rest : Nat × Nat → Compilation α (Instruction α)} :
    FailsWith P ((Compilation.ofExcept (c.moveTicks step shift source target tooLarge) >>= rest) p)
      ↔ FailsWith P (c.shiftTicks shift step) ∨ ∃ ticks, c.shiftTicks shift step = .ok ticks
        ∧ if source < ticks then P (tooLarge ticks source)
          else target + ticks < wordModulus
            ∧ FailsWith P (rest (source - ticks, target + ticks) p) := by
  rw [Compilation.failsWith_ofExcept_bind_iff, moveTicks, failsWith_bind_iff, or_assoc]
  apply or_congr Iff.rfl
  simp only [Outcome.bind_eq_ok_iff]
  cases c.shiftTicks shift step with
  | error e => simp
  | ok ticks =>
    simp only [Except.ok.injEq, exists_eq_left']
    split
    . simp
    . simp [failsWith_bind_iff, Outcome.bind_eq_ok_iff, Word.checked_eq_ok_iff,
        not_failsWith_checked hP]

/--
Evaluation fails where an output is shifted out of the room, or else where the sequencer that is
triggered does.
-/
theorem failsWith_output_iff (hP : IsTransparent P room) {o : ChannelOutput α} (s : Int)
    (hb : before < wordModulus) (ha : after < wordModulus) :
    FailsWith P (c.output compile step o unit before after p)
      ↔ c.FailsAt step room (fun device => FailsWith P (c.deviceTrigger compile device step p))
        before after ⟨o, unit, s⟩ := by
  have hplain : ∀ e, e.IsPlain → ¬P e := fun _ => hP.not_of_isPlain
  induction o using ChannelOutput.induct generalizing unit before after p s with
  | constant value =>
    rw [output_constant, Compilation.failsWith_ofExcept_iff]
    apply iff_of_false (not_failsWith_constant hplain _ _ _ _)
    apply not_failsAt
    . rintro y ⟨⟩
    . simp
  | laneValues name default =>
    apply iff_of_false (not_failsWith_laneValues hplain _ _)
    apply not_failsAt
    . rintro y ⟨⟩
    . simp
  | deviceTrigger device default ih =>
    by_cases h : ∃ y, c.Enters step ⟨.deviceTrigger device default, unit, s⟩ y
    . obtain ⟨y, hy⟩ := h
      cases hy with
      | default hd =>
        rw [output_deviceTrigger, if_neg (by simp [hd]),
          failsAt_iff_of_enters (.default hd) rfl rfl (isCounted_of_shift_eq hb ha rfl)]
        exact ih _ rfl s hb ha
    . exact failsWith_trigger_iff hplain (not_exists.mp h)
  | calibrated input inputUnit outputUnit points ih =>
    rw [output_calibrated, Compilation.failsWith_bind_iff,
      failsAt_iff_of_enters .calibrated rfl rfl (isCounted_of_shift_eq hb ha rfl)]
    refine (or_iff_left ?_).trans (ih s hb ha)
    rintro ⟨x, r, _, h⟩
    rcases Compilation.failsWith_ofExcept_bind_iff.mp h with h | ⟨calibration, _, h⟩
    . exact not_failsWith_calibrationIn (forall_isInert hplain) _ _ _ h
    . exact not_failsWith_calibrated (forall_isInert hplain) _ _
        (Compilation.failsWith_ofExcept_iff.mp h)
  | advance input shift ih =>
    rw [output_advance, failsWith_moveTicks_bind_iff (forall_isInert hplain),
      or_iff_right (not_failsWith_shiftTicks hplain shift), failsAt_advance_iff hb]
    apply exists_congr fun ticks => and_congr_right fun _ => ?_
    split
    . exact hP.advance
    . exact and_congr_right fun hc => ih (s + ticks) (by omega) hc
  | delay input shift ih =>
    rw [output_delay, failsWith_moveTicks_bind_iff (forall_isInert hplain),
      or_iff_right (not_failsWith_shiftTicks hplain shift), failsAt_delay_iff ha]
    apply exists_congr fun ticks => and_congr_right fun _ => ?_
    split
    . exact hP.delay
    . exact and_congr_right fun hc => ih (s - ticks) hc (by omega)

end Output

end ShotContext

end Waveplan
