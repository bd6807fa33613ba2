import Waveplan.Proofs.Shot.Descent

/-!
This module contains that the evaluation of channels knows sequencers by their instructions only:
with two ways to compile sequencers that behave alike, the channels of a sequencer come out alike.
-/

namespace Waveplan

/--
That two outcomes are the same but for the progress, in which they differ by `S` at most.
-/
inductive Compilation.Alike {α β : Type} (S : Progress α → Progress α → Prop) :
    Except (CompilationError α) (β × Progress α) → Except (CompilationError α) (β × Progress α) →
      Prop where
  | ok {b : β} {p q : Progress α} : S p q → Compilation.Alike S (.ok (b, p)) (.ok (b, q))
  | error {e : CompilationError α} : Compilation.Alike S (.error e) (.error e)

namespace Compilation

variable {α β γ : Type} {S : Progress α → Progress α → Prop} {p q : Progress α}
  {r s : Except (CompilationError α) (β × Progress α)}

theorem Alike.eq (h : Alike (fun p q => p = q) r s) : r = s := by
  cases h with
  | ok h => rw [h]
  | error => rfl

theorem Alike.mono {T : Progress α → Progress α → Prop} (h : Alike S r s)
    (hT : ∀ p q, S p q → T p q) : Alike T r s := by
  cases h with
  | ok h => exact .ok (hT _ _ h)
  | error => exact .error

theorem Alike.map_fst (h : Alike S r s) : r.map Prod.fst = s.map Prod.fst := by
  cases h with
  | ok _ => rfl
  | error => rfl

theorem Alike.exists_eq_ok (h : Alike S r s) {b : β} (hr : r = .ok (b, p)) :
    ∃ q, s = .ok (b, q) ∧ S p q := by
  cases h with
  | ok h =>
    cases hr
    exact ⟨_, rfl, h⟩
  | error => contradiction

theorem Alike.mapError (h : Alike S r s) (f : CompilationError α → CompilationError α) :
    Alike S (r.mapError f) (s.mapError f) := by
  cases h with
  | ok h => exact .ok h
  | error => exact .error

theorem Alike.bind_of_eq {x y : Compilation α γ} {f g : γ → Compilation α β}
    (h : Alike S (x p) (y q))
    (hf : ∀ b r s, x p = .ok (b, r) → y q = .ok (b, s) → S r s → Alike S (f b r) (g b s)) :
    Alike S ((x >>= f) p) ((y >>= g) q) := by
  have hx : (x >>= f) p = x p >>= fun r => f r.1 r.2 := rfl
  have hy : (y >>= g) q = y q >>= fun r => g r.1 r.2 := rfl
  rw [hx, hy]
  generalize x p = r, y q = s at h hf
  cases h with
  | ok h => exact hf _ _ _ rfl rfl h
  | error => exact .error

theorem Alike.bind {x y : Compilation α γ} {f g : γ → Compilation α β} (h : Alike S (x p) (y q))
    (hf : ∀ b r s, S r s → Alike S (f b r) (g b s)) : Alike S ((x >>= f) p) ((y >>= g) q) :=
  h.bind_of_eq fun b r s _ _ => hf b r s

theorem alike_ofExcept (h : S p q) (result : Except (CompilationError α) β) :
    Alike S (ofExcept result p) (ofExcept result q) := by
  cases result with
  | error e => exact .error
  | ok b => exact .ok h

theorem alike_ofExcept_bind (result : Except (CompilationError α) γ)
    {f g : γ → Compilation α β} (h : ∀ b, Alike S (f b p) (g b q)) :
    Alike S ((ofExcept result >>= f) p) ((ofExcept result >>= g) q) := by
  cases result with
  | error e => exact .error
  | ok b => exact h b

end Compilation

namespace ShotContext

open Compilation

variable {α : Type} [Number α] [Kernel α] {c : ShotContext α} {step : TimeStep}
  {compile compile' : String → Compilation α (Instruction α)} {before after : Nat}
  {p q : Progress α} {S : Progress α → Progress α → Prop}

omit [Kernel α] in
theorem alike_deviceTrigger {device : String} (hS : S p q)
    (h : ∀ config, c.devices.get? device = some (.sequencer config) →
      Alike S (compile device p) (compile' device q)) :
    Alike S (c.deviceTrigger compile device step p) (c.deviceTrigger compile' device step q) := by
  unfold deviceTrigger
  match hd : c.devices.get? device with
  | some (.sequencer config) => exact (h config hd).bind fun x r s hr => alike_ofExcept hr _
  | some .camera => exact alike_ofExcept hS _
  | some .other | none => exact alike_ofExcept hS _

theorem alike_moveTicks {shift : Expression} {source target : Nat}
    {tooLarge : Nat → Nat → CompilationError α}
    {rest rest' : Nat × Nat → Compilation α (Instruction α)}
    (h : ∀ ticks, c.shiftTicks shift step = .ok ticks → ∀ moved,
      Alike S (rest moved p) (rest' moved q)) :
    Alike S ((ofExcept (c.moveTicks step shift source target tooLarge) >>= rest) p)
      ((ofExcept (c.moveTicks step shift source target tooLarge) >>= rest') q) := by
  cases hmoved : c.moveTicks step shift source target tooLarge with
  | error e => exact .error
  | ok moved =>
    obtain ⟨ticks, ht, _⟩ := moveTicks_eq_ok_iff.mp hmoved
    exact h ticks ht moved

section Read

variable (hread : ∀ p q lane, S p q → S (p.read lane) (q.read lane))

include hread

/--
The evaluation of an output reads lanes, and asks for the sequencer that it triggers.
-/
theorem alike_output {o : ChannelOutput α} {unit : Option PhysicalUnit} (k : Int) (hS : S p q)
    (h : ∀ device, c.Triggers step ⟨o, unit, k⟩ device →
      Alike S (compile device p) (compile' device q)) :
    Alike S (c.output compile step o unit before after p)
      (c.output compile' step o unit before after q) := by
  induction o using ChannelOutput.induct generalizing unit before after k with
  | constant value =>
    rw [output_constant, output_constant]
    exact alike_ofExcept hS _
  | laneValues lane default =>
    rw [output_laneValues, output_laneValues]
    match c.lanes.get? lane, default with
    | some values, _ =>
      apply alike_ofExcept_bind
      intro x
      exact alike_ofExcept (hread p q lane hS) _
    | none, some value => exact alike_ofExcept hS _
    | none, none => exact .error
  | deviceTrigger device default ih =>
    rw [output_deviceTrigger, output_deviceTrigger]
    split
    . cases unit with
      | some unit => exact .error
      | none =>
        refine (alike_deviceTrigger hS ?_).bind fun x r s hr => alike_ofExcept hr _
        exact fun config hd => h device ⟨default, k, config, .refl, hd⟩
    . next hd =>
      cases default with
      | some other =>
        have hent : c.Enters step ⟨.deviceTrigger device (some other), unit, k⟩ ⟨other, unit, k⟩ :=
          .default (Bool.eq_false_iff.mpr hd)
        apply ih other rfl k
        exact fun other hother => h other ((triggers_iff_of_enters hent).mpr hother)
      | none => exact .error
  | calibrated input inputUnit outputUnit points ih =>
    rw [output_calibrated, output_calibrated]
    apply (ih k fun other hother => h other ((triggers_iff_of_enters .calibrated).mpr hother)).bind
    intro x r s hr
    apply alike_ofExcept_bind
    intro calibration
    exact alike_ofExcept hr _
  | advance input shift ih =>
    rw [output_advance, output_advance]
    apply alike_moveTicks
    intro ticks ht moved
    apply ih
    exact fun other hother => h other ((triggers_iff_of_enters (.advance ht)).mpr hother)
  | delay input shift ih =>
    rw [output_delay, output_delay]
    apply alike_moveTicks
    intro ticks ht moved
    apply ih
    exact fun other hother => h other ((triggers_iff_of_enters (.delay ht)).mpr hother)

theorem alike_channelWaveform {channel : Channel α} (hS : S p q)
    (h : ∀ device, c.Triggers step ⟨channel.output, channel.unit, 0⟩ device →
      Alike S (compile device p) (compile' device q)) :
    Alike S (c.channelWaveform compile step channel before after p)
      (c.channelWaveform compile' step channel before after q) :=
  (alike_output hread 0 hS h).bind fun _ _ _ hr => alike_ofExcept hr _

theorem alike_channelWaveforms {name : String} {number : Nat} {channels : List (Channel α)}
    (hS : S p q)
    (h : ∀ channel ∈ channels, ∀ device,
      c.Triggers step ⟨channel.output, channel.unit, 0⟩ device →
        ∀ r s, S r s → Alike S (compile device r) (compile' device s)) :
    Alike S (c.channelWaveforms compile name step before after number channels p)
      (c.channelWaveforms compile' name step before after number channels q) := by
  induction channels generalizing number p q with
  | nil => exact .ok hS
  | cons channel channels ih =>
    obtain ⟨hchannel, h⟩ := List.forall_mem_cons.mp h
    have hx : Alike S (c.channelWaveform compile step channel before after p)
        (c.channelWaveform compile' step channel before after q) :=
      alike_channelWaveform hread hS fun device hd => hchannel device hd p q hS
    rw [channelWaveforms, channelWaveforms]
    apply Alike.bind (hx.mapError _)
    intro x r s hr
    apply alike_ofExcept_bind
    intro y
    exact (ih hr h).bind fun ys t u ht => .ok ht

theorem alike_channels {name : String} {config : Sequencer α} (hS : S p q)
    (h : ∀ channel ∈ config.channels, ∀ device,
      c.Triggers config.timeStep ⟨channel.output, channel.unit, 0⟩ device →
        ∀ r s, S r s → Alike S (compile device r) (compile' device s)) :
    Alike S (c.channels compile name config p) (c.channels compile' name config q) := by
  unfold channels
  apply alike_ofExcept_bind
  rintro ⟨before, after⟩
  apply (alike_channelWaveforms hread hS h).bind
  intro xs r s hr
  split
  . exact .error
  . exact alike_ofExcept hr _

end Read

end ShotContext

end Waveplan
