import Mathlib.Data.List.Chain
import Waveplan.Formula.Kernel
import Waveplan.Proofs.Shot.Cycles

/-!
This module contains which channels a compilation blames for an expression that fails. The channels
that an error names trigger each other, and the expression is written in the last one of them unless
that one triggers a sequencer: what fails then is a shift of a channel of that sequencer, which is
evaluated to find the room for all of its channels and is not attributed to any.
-/

namespace Waveplan

open Outcome

namespace CompilationError

variable {α : Type}

/--
What a channel adds to the errors of its output.
-/
structure ChannelName where
  sequencer : String
  number : Nat
  description : String
  deriving DecidableEq, Repr

/--
The channels that an error names, from the outside in.
-/
def channelNames : CompilationError α → List ChannelName
  | .channel sequencer number description error =>
    ⟨sequencer, number, description⟩ :: error.channelNames
  | _ => []

/--
An error of an expression that is written in an output.
-/
def IsExpression : CompilationError α → Prop
  | .evaluation _ _ | .negativeShift _ => True
  | _ => False

instance : (e : CompilationError α) → Decidable e.IsExpression
  | .evaluation _ _ | .negativeShift _ => .isTrue trivial
  | .noRootSequencer | .multipleRootSequencers _ | .unreachedSequencers _ _ | .unusedLanes _
  | .triggerCycle _ | .noChannels _ | .channel _ _ _ _ | .missingLane _ _ | .unsupportedLane _ _
  | .digitalLaneWithUnit _ _ | .unknownDevice _ _ | .triggerWithUnit _ _ | .notACameraLane _ _
  | .advanceTooLarge _ _ | .delayTooLarge _ _ | .triggerTooShort _ | .unsupportedTrigger _ _
  | .clockTooFast _ _ | .clockNotMultiple _ _ | .unsupportedRepetition _ | .rampClockTarget
  | .calibrationUnits _ _ | .lane _ | .instruction _ | .calibration _ | .overflow => .isFalse id

variable {e : CompilationError α}

theorem IsExpression.innermost_eq (h : e.IsExpression) : e.innermost = e := by
  cases e <;> first | rfl | exact h.elim

theorem IsExpression.channelNames_eq (h : e.IsExpression) : e.channelNames = [] := by
  cases e <;> first | rfl | exact h.elim

theorem not_isInert_of_innermost (h : e.innermost.IsExpression) : ¬e.IsInert := by
  cases e <;> first | exact id | exact fun _ => h

end CompilationError

open CompilationError (ChannelName IsExpression not_failsWith_checked not_isInert_of_innermost)

/--
The expressions by which an output is shifted, without those in the defaults of triggers.
-/
def ChannelOutput.shiftExpressions {α : Type} : ChannelOutput α → List Expression
  | .constant _ | .laneValues _ _ | .deviceTrigger _ _ => []
  | .calibrated input _ _ _ => input.shiftExpressions
  | .advance input shift | .delay input shift => input.shiftExpressions ++ [shift]

namespace ShotContext

variable {α : Type} [Number α] [Kernel α] {c : ShotContext α} {step : TimeStep} {e : CompilationError α}

theorem isExpression_of_evaluate {value : Expression} {unit : Option PhysicalUnit}
    (h : c.evaluate value unit = .error e) : e.IsExpression := by
  unfold evaluate at h
  cases hv : value.evaluateIn c.scope unit with
  | error reason =>
    rw [hv] at h
    cases h
    trivial
  | ok x =>
    rw [hv] at h
    cases h

theorem isExpression_of_shiftTicks {shift : Expression} (h : c.shiftTicks shift step = .error e) :
    e.IsExpression := by
  unfold shiftTicks at h
  cases hv : c.evaluate shift (some .nanosecond) with
  | error e' =>
    rw [hv] at h
    cases h
    exact isExpression_of_evaluate hv
  | ok duration =>
    rw [hv] at h
    simp only [bind, Except.bind] at h
    split at h
    . cases h
      trivial
    . cases h

section Written

variable (c step) in
/--
The error of an expression that is written in an output.
-/
inductive Raises : Position α → CompilationError α → Prop where
  | constant {value : Expression} {unit : Option PhysicalUnit} {s : Int} {e : CompilationError α} :
      c.evaluate value unit = .error e → Raises ⟨.constant value, unit, s⟩ e
  | default {lane : String} {value : Expression} {unit : Option PhysicalUnit} {s : Int}
      {e : CompilationError α} : c.lanes.get? lane = none → c.evaluate value unit = .error e →
      Raises ⟨.laneValues lane (some value), unit, s⟩ e
  | advance {input : ChannelOutput α} {shift : Expression} {unit : Option PhysicalUnit} {s : Int}
      {e : CompilationError α} : c.shiftTicks shift step = .error e →
      Raises ⟨.advance input shift, unit, s⟩ e
  | delay {input : ChannelOutput α} {shift : Expression} {unit : Option PhysicalUnit} {s : Int}
      {e : CompilationError α} : c.shiftTicks shift step = .error e →
      Raises ⟨.delay input shift, unit, s⟩ e

variable (c step) in
/--
That an error is one of an expression that is written in an output or on the way down from it.
-/
def IsWritten (x : Position α) (e : CompilationError α) : Prop :=
  ∃ y, c.Descends step x y ∧ c.Raises step y e

variable {x y : Position α}

theorem Raises.isExpression (h : c.Raises step x e) : e.IsExpression := by
  cases h with
  | constant h | default _ h => exact isExpression_of_evaluate h
  | advance h | delay h => exact isExpression_of_shiftTicks h

theorem Raises.not_triggers (h : c.Raises step x e) (device : String) :
    ¬c.Triggers step x device := by
  have hend : ∀ y, ¬c.Enters step x y := by
    rintro y hy
    cases hy with
    | default | calibrated => cases h
    | advance ht =>
      cases h with
      | advance he =>
        rw [ht] at he
        cases he
    | delay ht =>
      cases h with
      | delay he =>
        rw [ht] at he
        cases he
  rw [triggers_iff hend]
  rintro ⟨default, config, ho, _, _⟩
  cases h <;> cases ho

theorem IsWritten.isExpression (h : c.IsWritten step x e) : e.IsExpression := by
  obtain ⟨_, _, h⟩ := h
  exact h.isExpression

theorem IsWritten.of_enters (h : c.Enters step x y) (hy : c.IsWritten step y e) :
    c.IsWritten step x e := by
  obtain ⟨z, hz, he⟩ := hy
  exact ⟨z, .head h hz, he⟩

/--
An output either ends in a sequencer or fails by itself.
-/
theorem IsWritten.not_triggers (h : c.IsWritten step x e) (device : String) :
    ¬c.Triggers step x device := by
  obtain ⟨y, hy, he⟩ := h
  induction hy using Relation.ReflTransGen.head_induction_on with
  | refl => exact he.not_triggers device
  | head h _ ih => rwa [triggers_iff_of_enters h]

variable (c step) in
/--
Where an expression fails: in an output itself, or in a sequencer that it triggers.
-/
def FailsIn (P : CompilationError α → Prop) (fails : String → Prop) (x : Position α) : Prop :=
  (∃ e, c.IsWritten step x e ∧ P e) ∨ ∃ device, c.Triggers step x device ∧ fails device

theorem FailsIn.of_enters {P : CompilationError α → Prop} {fails : String → Prop}
    (h : c.Enters step x y) (hy : c.FailsIn step P fails y) : c.FailsIn step P fails x := by
  unfold FailsIn
  simp only [triggers_iff_of_enters h]
  exact hy.imp_left fun ⟨e, he, hp⟩ => ⟨e, he.of_enters h, hp⟩

end Written

section Output

variable {P : CompilationError α → Prop}
  {compile : String → Compilation α (Instruction α)} {unit : Option PhysicalUnit}
  {before after : Nat} {p : Progress α}

theorem exists_of_failsWith_constant (hP : ∀ e, e.IsInert → ¬P e) {value : Expression}
    (h : FailsWith P (c.constant value step unit before after)) :
    ∃ e, c.evaluate value unit = .error e ∧ P e := by
  rcases failsWith_bind_iff.mp h with h | ⟨_, _, h⟩
  . exact absurd h (not_failsWith_checked hP _)
  . rcases failsWith_bind_iff.mp h with h | ⟨_, _, h⟩
    . exact absurd h (not_failsWith_checked hP _)
    . rcases failsWith_bind_iff.mp h with h | ⟨_, _, h⟩
      . exact h
      . exact absurd h failsWith_ok_iff.mp

theorem exists_of_failsWith_moveTicks_bind (hP : ∀ e, e.IsInert → ¬P e) {shift : Expression}
    {source target : Nat} {tooLarge : Nat → Nat → CompilationError α}
    {rest : Nat × Nat → Compilation α (Instruction α)} (herror : ∀ m n, ¬P (tooLarge m n))
    (h : FailsWith P
      ((Compilation.ofExcept (c.moveTicks step shift source target tooLarge) >>= rest) p)) :
    (∃ e, c.shiftTicks shift step = .error e ∧ P e)
      ∨ ∃ ticks, c.shiftTicks shift step = .ok ticks
        ∧ FailsWith P (rest (source - ticks, target + ticks) p) := by
  rcases (failsWith_moveTicks_bind_iff hP).mp h with h | ⟨ticks, ht, h⟩
  . exact .inl h
  . split at h
    . exact absurd h (herror ticks source)
    . exact .inr ⟨ticks, ht, h.2⟩

/--
What fails with the error of an expression is the output itself, or a sequencer that it triggers.
-/
theorem failsIn_of_failsWith (hP : ∀ e, P e → e.innermost.IsExpression) {o : ChannelOutput α}
    (h : FailsWith P (c.output compile step o unit before after p)) (s : Int) :
    c.FailsIn step P (fun device => FailsWith P (c.deviceTrigger compile device step p))
      ⟨o, unit, s⟩ := by
  have hinert : ∀ e, e.IsInert → ¬P e := fun e he h => not_isInert_of_innermost (hP e h) he
  induction o using ChannelOutput.induct generalizing unit before after p s with
  | constant value =>
    rw [output_constant, Compilation.failsWith_ofExcept_iff] at h
    obtain ⟨e, he, h⟩ := exists_of_failsWith_constant hinert h
    exact .inl ⟨e, ⟨_, .refl, .constant he⟩, h⟩
  | laneValues name default =>
    rw [output_laneValues] at h
    match hl : c.lanes.get? name, default with
    | some lane, _ =>
      simp only [hl] at h
      rcases Compilation.failsWith_ofExcept_bind_iff.mp h with h | ⟨x, _, h⟩
      . exact absurd h (not_failsWith_laneWaveform hinert _ _ _)
      . exact absurd (Compilation.failsWith_ofExcept_iff.mp h)
          (not_failsWith_mapError fun e => hinert (.instruction e) trivial)
    | none, some value =>
      simp only [hl] at h
      obtain ⟨e, he, h⟩ :=
        exists_of_failsWith_constant hinert (Compilation.failsWith_ofExcept_iff.mp h)
      exact .inl ⟨e, ⟨_, .refl, .default hl he⟩, h⟩
    | none, none =>
      simp only [hl] at h
      exact absurd (Compilation.failsWith_throw_iff.mp h) (hinert _ trivial)
  | deviceTrigger device default ih =>
    rw [output_deviceTrigger] at h
    split at h
    . cases unit with
      | some unit => exact absurd (Compilation.failsWith_throw_iff.mp h) (hinert _ trivial)
      | none =>
        rcases Compilation.failsWith_bind_iff.mp h with h | ⟨_, _, _, h⟩
        . obtain ⟨config, hg⟩ := exists_sequencer_of_failsWith_deviceTrigger hinert h
          exact .inr ⟨device, ⟨default, s, config, .refl, hg⟩, h⟩
        . exact absurd (Compilation.failsWith_ofExcept_iff.mp h) (Clock.not_failsWith_play hinert _)
    . next hd =>
      cases default with
      | some other =>
        exact .of_enters (.default (Bool.eq_false_iff.mpr hd)) (ih other rfl h s)
      | none => exact absurd (Compilation.failsWith_throw_iff.mp h) (hinert _ trivial)
  | calibrated input inputUnit outputUnit points ih =>
    rw [output_calibrated] at h
    rcases Compilation.failsWith_bind_iff.mp h with h | ⟨_, _, _, h⟩
    . exact .of_enters .calibrated (ih h s)
    . rcases Compilation.failsWith_ofExcept_bind_iff.mp h with h | ⟨_, _, h⟩
      . exact absurd h (not_failsWith_calibrationIn hinert _ _ _)
      . exact absurd (Compilation.failsWith_ofExcept_iff.mp h)
          (not_failsWith_calibrated hinert _ _)
  | advance input shift ih =>
    rw [output_advance] at h
    rcases exists_of_failsWith_moveTicks_bind hinert (fun _ _ => hP _) h
      with ⟨e, he, h⟩ | ⟨ticks, ht, h⟩
    . exact .inl ⟨e, ⟨_, .refl, .advance he⟩, h⟩
    . exact .of_enters (.advance ht) (ih h _)
  | delay input shift ih =>
    rw [output_delay] at h
    rcases exists_of_failsWith_moveTicks_bind hinert (fun _ _ => hP _) h
      with ⟨e, he, h⟩ | ⟨ticks, ht, h⟩
    . exact .inl ⟨e, ⟨_, .refl, .delay he⟩, h⟩
    . exact .of_enters (.delay ht) (ih h _)

end Output

section Room

variable {P : CompilationError α → Prop}

theorem exists_of_failsWith_shifts (hP : ∀ e, e.IsInert → ¬P e) {o : ChannelOutput α}
    (h : FailsWith P (c.shifts step o)) :
    ∃ shift ∈ o.shiftExpressions, FailsWith P (c.shiftTicks shift step) := by
  induction o using ChannelOutput.induct with
  | constant | laneValues | deviceTrigger =>
    rw [shifts] at h
    exact absurd h failsWith_ok_iff.mp
  | calibrated input _ _ _ ih => exact ih h
  | advance input shift ih | delay input shift ih =>
    rw [shifts] at h
    rcases failsWith_bind_iff.mp h with h | ⟨_, _, h⟩
    . obtain ⟨other, hother, h⟩ := ih h
      exact ⟨other, List.mem_append_left _ hother, h⟩
    . rcases failsWith_bind_iff.mp h with h | ⟨_, _, h⟩
      . exact ⟨shift, List.mem_append_right _ List.mem_cons_self, h⟩
      . rcases failsWith_bind_iff.mp h with h | ⟨_, _, h⟩
        . exact absurd h (not_failsWith_checked hP _)
        . exact absurd h failsWith_ok_iff.mp

theorem exists_of_failsWith_maxShifts {channels : List (Channel α)}
    (h : FailsWith P (c.maxShifts step channels)) :
    ∃ channel ∈ channels, FailsWith P (c.shifts step channel.output) := by
  unfold maxShifts at h
  generalize (0, 0) = room at h
  induction channels generalizing room with
  | nil => exact absurd h failsWith_ok_iff.mp
  | cons channel channels ih =>
    rw [List.foldlM_cons] at h
    rcases failsWith_bind_iff.mp h with h | ⟨next, _, h⟩
    . rcases failsWith_bind_iff.mp h with h | ⟨_, _, h⟩
      . exact ⟨channel, List.mem_cons_self, h⟩
      . exact absurd h failsWith_ok_iff.mp
    . obtain ⟨other, hother, h⟩ := ih next h
      exact ⟨other, List.mem_cons_of_mem _ hother, h⟩

end Room

/--
The channel of a sequencer that has a name.
-/
structure Names (c : ShotContext α) (w : ChannelName) (config : Sequencer α) (channel : Channel α) :
    Prop where
  configured : c.devices.get? w.sequencer = some (.sequencer config)
  isChannel : config.channels[w.number]? = some channel
  described : channel.description = w.description

/--
That an error is one of an expression that is written in the output of a channel.
-/
def IsWrittenIn (c : ShotContext α) (w : ChannelName) (e : CompilationError α) : Prop :=
  ∃ config channel, c.Names w config channel
    ∧ c.IsWritten config.timeStep ⟨channel.output, channel.unit, 0⟩ e

/--
That the output of a channel triggers a sequencer.
-/
def PassesOn (c : ShotContext α) (w : ChannelName) (device : String) : Prop :=
  ∃ config channel, c.Names w config channel
    ∧ c.Triggers config.timeStep ⟨channel.output, channel.unit, 0⟩ device

/--
That an error is one of a shift in the channels of a sequencer.
-/
def IsShiftOf (c : ShotContext α) (device : String) (e : CompilationError α) : Prop :=
  ∃ config channel, c.devices.get? device = some (.sequencer config) ∧ channel ∈ config.channels
    ∧ ∃ shift ∈ channel.output.shiftExpressions, c.shiftTicks shift config.timeStep = .error e

theorem not_passesOn_of_isWrittenIn {w : ChannelName} (h : c.IsWrittenIn w e) (device : String) :
    ¬c.PassesOn w device := by
  obtain ⟨config, channel, hn, hw⟩ := h
  rintro ⟨config', channel', hn', ht⟩
  have hconfig := hn.configured.symm.trans hn'.configured
  cases hconfig
  have hchannel := hn.isChannel.symm.trans hn'.isChannel
  cases hchannel
  exact hw.not_triggers device ht

/--
The errors of expressions that the compilation of a sequencer can fail with.
-/
inductive Blames (c : ShotContext α) : String → CompilationError α → Prop where
  /-- A shift that is evaluated to find the room for the channels. -/
  | room {name : String} {e : CompilationError α} : c.IsShiftOf name e → c.Blames name e
  | own {w : ChannelName} {e : CompilationError α} : c.IsWrittenIn w e →
      c.Blames w.sequencer (.channel w.sequencer w.number w.description e)
  | triggered {w : ChannelName} {device : String} {e : CompilationError α} :
      c.PassesOn w device → c.Blames device e →
      c.Blames w.sequencer (.channel w.sequencer w.number w.description e)

section Sequencers

theorem exists_of_failsWith_channels {P : CompilationError α → Prop}
    (hP : ∀ e, P e → e.innermost.IsExpression) {compile : String → Compilation α (Instruction α)}
    {name : String} {config : Sequencer α} {p : Progress α}
    (h : FailsWith P (c.channels compile name config p)) :
    FailsWith P (c.maxShifts config.timeStep config.channels)
      ∨ ∃ before after number channel q, config.channels[number]? = some channel
        ∧ FailsWith (fun e => P (.channel name number channel.description e))
          (c.channelWaveform compile config.timeStep channel before after q) := by
  unfold channels at h
  rcases Compilation.failsWith_ofExcept_bind_iff.mp h with h | ⟨⟨before, after⟩, _, h⟩
  . exact .inl h
  . rcases Compilation.failsWith_bind_iff.mp h with h | ⟨xs, q, _, h⟩
    . obtain ⟨earlier, channel, later, _, q, hsplit, _, h⟩ :=
        (failsWith_channelWaveforms_iff_channel fun _ => hP _).mp h
      rw [Nat.zero_add] at h
      exact .inr ⟨before, after, earlier.length, channel, q, by simp [hsplit], h⟩
    . split at h
      . exact absurd (Compilation.failsWith_throw_iff.mp h) (hP _)
      . have h := Compilation.failsWith_ofExcept_iff.mp h
        exact absurd h (not_failsWith_mapError fun _ => hP _)

/--
A sequencer that is triggered fails by itself, as far as expressions are concerned.
-/
theorem failsWith_of_deviceTrigger {P : CompilationError α → Prop}
    (hP : ∀ e, P e → e.innermost.IsExpression) {compile : String → Compilation α (Instruction α)}
    {x : Position α} {device : String} {p : Progress α} (hd : c.Triggers step x device)
    (h : FailsWith P (c.deviceTrigger compile device step p)) : FailsWith P (compile device p) := by
  obtain ⟨_, _, config, _, hg⟩ := hd
  rcases (failsWith_deviceTrigger_iff hg).mp h with h | ⟨slave, q, _, h⟩
  . exact h
  . have hinert : ∀ e, e.IsInert → ¬P e := fun e he h => not_isInert_of_innermost (hP e h) he
    exact absurd (failsWith_sequencerTrigger hinert h) (hP _)

theorem blames_of_failsWith {pending : List String} {name : String} {p : Progress α}
    (he : e.innermost.IsExpression)
    (h : FailsWith (· = e) (c.compileSequencer pending name p)) : c.Blames name e := by
  -- the sequencers that are triggered have fewer pending ones
  induction hn : pending.length using Nat.strongRecOn generalizing pending name p e with
  | ind n ih =>
    have hP : ∀ e', e' = e → e'.innermost.IsExpression := by
      rintro _ rfl
      exact he
    rw [compileSequencer, Compilation.failsWith_get_bind_iff] at h
    cases hx : p.compiled.get? name with
    | some x =>
      rw [hx] at h
      exact absurd h Compilation.failsWith_pure_iff.mp
    | none =>
      rw [hx] at h
      cases hconfig : (c.devices.get? name).bind Device.sequencer? with
      | none =>
        rw [hconfig] at h
        exact absurd (Compilation.failsWith_throw_iff.mp h) (hP _)
      | some config =>
        rw [hconfig] at h
        have hg := bind_sequencer?_eq_some_iff.mp hconfig
        dsimp only at h
        split at h
        . next hmem =>
          rcases Compilation.failsWith_bind_iff.mp h with h | ⟨_, _, _, h⟩
          . rcases exists_of_failsWith_channels hP h
              with h | ⟨before, after, number, channel, q, hchannel, h⟩
            . obtain ⟨channel, hm, h⟩ := exists_of_failsWith_maxShifts h
              obtain ⟨shift, hshift, _, hshifted, rfl⟩ :=
                exists_of_failsWith_shifts (fun e he h => not_isInert_of_innermost (hP e h) he) h
              exact .room ⟨config, channel, hg, hm, shift, hshift, hshifted⟩
            . have hw : c.Names ⟨name, number, channel.description⟩ config channel :=
                ⟨hg, hchannel, rfl⟩
              have hP' : ∀ e', CompilationError.channel name number channel.description e' = e →
                  e'.innermost.IsExpression := fun e' => hP (.channel _ _ _ e')
              rw [failsWith_channelWaveform_iff fun _ => hP' _] at h
              rcases failsIn_of_failsWith hP' h 0 with ⟨e', hwritten, rfl⟩ | ⟨device, hd, h⟩
              . exact .own (w := ⟨name, number, channel.description⟩)
                  ⟨config, channel, hw, hwritten⟩
              . obtain ⟨e', hslave, rfl⟩ := failsWith_of_deviceTrigger hP' hd h
                have hl := length_erase_lt hmem
                have hdevice := ih _ (by omega) (hP' e' rfl) ⟨e', hslave, rfl⟩ rfl
                exact .triggered (w := ⟨name, number, channel.description⟩)
                  ⟨config, channel, hw, hd⟩ hdevice
          . exact absurd h Compilation.failsWith_pure_iff.mp
        . exact absurd (Compilation.failsWith_throw_iff.mp h) (hP _)

end Sequencers

/--
What the channels that an error names have to do with the expression that fails.
-/
structure Attribution (c : ShotContext α) (name : String) (e : CompilationError α) : Prop where
  first : ∀ w ∈ e.channelNames.head?, w.sequencer = name
  /-- Each channel triggers the sequencer of the next one. -/
  triggered : e.channelNames.IsChain fun w w' => c.PassesOn w w'.sequencer
  /-- The expression is written in the last channel unless that one triggers a sequencer. -/
  last : ∀ w ∈ e.channelNames.getLast?,
    (c.IsWrittenIn w e.innermost ∧ ∀ device, ¬c.PassesOn w device)
      ∨ (¬c.IsWrittenIn w e.innermost
        ∧ ∃ device, c.PassesOn w device ∧ c.IsShiftOf device e.innermost)
  /-- A compilation that names no channel has failed in a shift of its own sequencer. -/
  nameless : e.channelNames = [] → c.IsShiftOf name e.innermost

section Attribution

variable {name : String}

theorem IsShiftOf.isExpression (h : c.IsShiftOf name e) : e.IsExpression := by
  obtain ⟨_, _, _, _, _, _, h⟩ := h
  exact isExpression_of_shiftTicks h

theorem IsWrittenIn.isExpression {w : ChannelName} (h : c.IsWrittenIn w e) : e.IsExpression := by
  obtain ⟨_, _, _, h⟩ := h
  exact h.isExpression

theorem attribution_of_blames (h : c.Blames name e) : c.Attribution name e := by
  induction h with
  | room h =>
    have he := h.isExpression
    constructor
    . simp [he.channelNames_eq]
    . simp [he.channelNames_eq]
    . simp [he.channelNames_eq]
    . intro _
      rwa [he.innermost_eq]
  | @own w e h =>
    have he := h.isExpression
    have hnames : (CompilationError.channel w.sequencer w.number w.description e).channelNames
        = [w] := congrArg (w :: ·) he.channelNames_eq
    constructor
    . simp [hnames]
    . simp [hnames]
    . intro w' hw
      rw [hnames, List.getLast?_singleton, Option.mem_some_iff] at hw
      subst hw
      rw [show (CompilationError.channel _ _ _ e).innermost = e from he.innermost_eq]
      exact .inl ⟨h, not_passesOn_of_isWrittenIn h⟩
    . simp [hnames]
  | @triggered w device e hp _ ih =>
    have hnames : (CompilationError.channel w.sequencer w.number w.description e).channelNames
        = w :: e.channelNames := rfl
    constructor
    . simp [hnames]
    . rw [hnames, List.isChain_cons]
      refine ⟨?_, ih.triggered⟩
      intro w' hw
      rwa [ih.first w' hw]
    . intro w' hw
      rw [hnames] at hw
      rw [show (CompilationError.channel _ _ _ e).innermost = e.innermost from rfl]
      cases hrest : e.channelNames with
      | nil =>
        rw [hrest, List.getLast?_singleton, Option.mem_some_iff] at hw
        subst hw
        refine .inr ⟨?_, device, hp, ih.nameless hrest⟩
        intro h
        exact not_passesOn_of_isWrittenIn h device hp
      | cons next rest =>
        apply ih.last
        rwa [hrest, List.getLast?_cons_cons, ← hrest] at hw
    . simp [hnames]

end Attribution

theorem blames_of_compileSequencers {root : String} (h : c.compileSequencers root = .error e)
    (he : e.innermost.IsExpression) : c.Blames root e := by
  apply blames_of_failsWith he
  have hfails : FailsWith (· = e) (c.compileSequencers root) := ⟨e, h, rfl⟩
  unfold compileSequencers at hfails
  rcases failsWith_bind_iff.mp hfails with h | ⟨_, _, h⟩
  . exact h
  . dsimp only at h
    split at h
    . cases failsWith_error_iff.mp h
      exact he.elim
    . split at h
      . cases failsWith_error_iff.mp h
        exact he.elim
      . exact absurd h failsWith_ok_iff.mp

/--
The channels that an error of an expression names lead from the root to the expression, one
triggering the sequencer of the next one. Only a shift that is evaluated to find the room for a
sequencer that is triggered is blamed on the channel that triggers it.
-/
theorem attribution_of_compileSequencers {root : String} (h : c.compileSequencers root = .error e)
    (he : e.innermost.IsExpression) : c.Attribution root e :=
  attribution_of_blames (blames_of_compileSequencers h he)

section Shots

attribute [local instance] Exact.zeroFunctions

def slaveSequencer (output : ChannelOutput Exact) : Sequencer Exact :=
  ⟨.microsecond, .externalStart .rising, [.digital "gate" output]⟩

/--
A sequencer that does nothing but start another one, which has one channel.
-/
def slaveShot (output : ChannelOutput Exact) : ShotContext Exact where
  lanes := .empty
  devices := ⟨[("master", .sequencer (triggering .software "slave")),
    ("slave", .sequencer (slaveSequencer output))]⟩
  times := .ofDurations ["only"] [Number.ofDecimal 4 (-6)]
  scope := .empty

def startName : ChannelName := ⟨"master", 0, "start"⟩

def gateName : ChannelName := ⟨"slave", 0, "gate"⟩

theorem passesOn_start_iff {output : ChannelOutput Exact} {device : String} :
    (slaveShot output).PassesOn startName device ↔ device = "slave" := by
  constructor
  . rintro ⟨config, channel, hn, ht⟩
    cases hn.configured
    cases hn.isChannel
    obtain ⟨_, _, ho, _, _⟩ := (triggers_iff (by rintro y ⟨⟩)).mp ht
    cases ho
    rfl
  . rintro rfl
    exact ⟨_, _, ⟨rfl, rfl, rfl⟩, none, 0, slaveSequencer output, .refl, rfl⟩

def missing : Expression := ⟨"missing"⟩

theorem attribution_of_missing_value : ∃ e,
    (slaveShot (.constant missing)).compileSequencers "master" = .error e
      ∧ e.innermost.IsExpression ∧ e.channelNames = [startName, gateName]
      ∧ (slaveShot (.constant missing)).IsWrittenIn gateName e.innermost := by
  have hfails : FailsWith (fun e => e.innermost.IsExpression
        ∧ e.channelNames = [startName, gateName])
      ((slaveShot (.constant missing)).compileSequencers "master") := by
    unfold compileSequencers
    rw [← compileWithin_nil (by decide) (fun _ => throw .noRootSequencer) (Nat.lt_succ_self 2)]
    decide +kernel
  obtain ⟨e, h, he, hnames⟩ := hfails
  refine ⟨e, h, he, hnames, ?_⟩
  rcases (attribution_of_compileSequencers h he).last gateName (by rw [hnames]; rfl)
    with ⟨hw, _⟩ | ⟨_, device, ⟨config, channel, hn, ht⟩, _⟩
  . exact hw
  . cases hn.configured
    cases hn.isChannel
    obtain ⟨_, _, ho, _, _⟩ := (triggers_iff (by rintro y ⟨⟩)).mp ht
    cases ho

/--
A variable that is missing in a shift of the slave is blamed on the channel that starts the slave.
-/
theorem channelNames_of_missing_shift : ∃ e,
    (slaveShot (.advance (.constant ⟨"True"⟩) missing)).compileSequencers "master" = .error e
      ∧ e.innermost.IsExpression ∧ e.channelNames = [startName]
      ∧ ¬(slaveShot (.advance (.constant ⟨"True"⟩) missing)).IsWrittenIn startName e.innermost
      ∧ (slaveShot (.advance (.constant ⟨"True"⟩) missing)).IsWrittenIn gateName e.innermost := by
  have hfails : FailsWith (fun e => e.innermost.IsExpression ∧ e.channelNames = [startName])
      ((slaveShot (.advance (.constant ⟨"True"⟩) missing)).compileSequencers "master") := by
    unfold compileSequencers
    rw [← compileWithin_nil (by decide) (fun _ => throw .noRootSequencer) (Nat.lt_succ_self 2)]
    decide +kernel
  obtain ⟨e, h, he, hnames⟩ := hfails
  have hblames := attribution_of_blames (blames_of_compileSequencers h he)
  rcases hblames.last startName (by rw [hnames]; rfl) with ⟨_, hnone⟩ | ⟨hnot, device, hp, hs⟩
  . exact absurd (passesOn_start_iff.mpr rfl) (hnone "slave")
  . obtain rfl := passesOn_start_iff.mp hp
    obtain ⟨config, channel, hg, hm, shift, hshift, hticks⟩ := hs
    cases hg
    cases List.mem_singleton.mp hm
    cases List.mem_singleton.mp hshift
    exact ⟨e, h, he, hnames, hnot, _, _, ⟨rfl, rfl, rfl⟩, _, .refl, .advance hticks⟩

end Shots

end ShotContext

end Waveplan
