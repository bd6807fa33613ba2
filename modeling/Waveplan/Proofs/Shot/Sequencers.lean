import Waveplan.Formula.Kernel
import Waveplan.Proofs.Instruction.StackAll
import Waveplan.Proofs.Shot.Signal

/-!
This module contains that the channels of a sequencer always fit together, whatever has been
compiled before.
-/

namespace Waveplan.ShotContext

open Instruction

theorem channelName_injective {m n : Nat} (h : channelName m = channelName n) : m = n := by
  have hr : m.repr = n.repr := (String.append_right_inj "ch ").mp h
  have hd : Nat.toDigits 10 m = Nat.toDigits 10 n := by
    rw [← Nat.toList_repr, ← Nat.toList_repr, hr]
  have hm := Nat.ofDigitChars_toDigits (b := 10) (n := m) (by decide) (by decide)
  rw [hd, Nat.ofDigitChars_toDigits (by decide) (by decide)] at hm
  exact hm.symm

/--
The channels of the instruction of a sequencer, numbered from `number` on.
-/
def channelFields {α : Type} (number : Nat) (channels : List (Channel α)) : List Field :=
  channels.mapIdx fun k channel => ⟨channelName (number + k), channel.kind⟩

theorem channelFields_cons {α : Type} (number : Nat) (channel : Channel α)
    (channels : List (Channel α)) :
    channelFields number (channel :: channels)
      = ⟨channelName number, channel.kind⟩ :: channelFields (number + 1) channels := by
  unfold channelFields
  rw [List.mapIdx_cons, Nat.add_zero]
  simp only [Nat.add_assoc, Nat.add_comm 1]

theorem nodup_channelFields {α : Type} (number : Nat) (channels : List (Channel α)) :
    ((channelFields number channels).map Field.name).Nodup := by
  apply List.pairwise_iff_getElem.mpr
  intro i j hi hj hij heq
  simp only [channelFields, List.getElem_map, List.getElem_mapIdx] at heq
  have := channelName_injective heq
  omega

theorem channelFields_append {α : Type} (number : Nat) (earlier later : List (Channel α)) :
    channelFields number (earlier ++ later)
      = channelFields number earlier ++ channelFields (number + earlier.length) later := by
  unfold channelFields
  rw [List.mapIdx_append]
  simp only [Nat.add_assoc, Nat.add_comm earlier.length]

theorem typed_channelWaveforms {α : Type} [Number α] [Kernel α] {c : ShotContext α} {step : TimeStep}
    {before after : Nat} {p q : Progress α} {compile : String → Compilation α (Instruction α)}
    {name : String} {number : Nat} {channels : List (Channel α)} {ys : List (Instruction α)}
    (h : c.channelWaveforms compile name step before after number channels p = .ok (ys, q)) :
    List.Forall₂ (fun f y => y.Typed (.record [f])) (channelFields number channels) ys := by
  induction channels generalizing number p ys with
  | nil =>
    obtain ⟨rfl, _⟩ := Compilation.pure_eq_ok_iff.mp h
    exact .nil
  | cons channel channels ih =>
    obtain ⟨x, r, y, rest, hx, hy, hrest, rfl⟩ := channelWaveforms_cons_eq_ok_iff.mp h
    obtain ⟨kind, hk, rfl⟩ := withName_eq_ok hy
    have ht := typed_channelWaveform hx
    rw [ht.sampleType] at hk
    cases hk
    rw [channelFields_cons]
    refine .cons (typed_relabel ht.normal ?_) (ih hrest)
    rw [ht.sampleType]
    rfl

def nameAll (fields : List Field) (ws : List (Instruction Exact)) : List (Instruction Exact) :=
  List.zipWith (fun f w => w.relabel (.record [f])) fields ws

/--
An instruction that plays the waveforms of channels side by side, each under its name.
-/
structure PlaysChannels (x : Instruction Exact) (n : Nat) (fields : List Field)
    (ws : List (Instruction Exact)) : Prop where
  typed : x.Typed (.record fields)
  length : x.length = n
  fields : List.Forall₂
    (fun f w => ∃ y, x.field f.name = .ok y ∧ y.toPattern = w.toPattern.relabel (.record [f]))
    fields ws

section Names

variable {fields : List Field} {ws : List (Instruction Exact)}
  {R S T : Field → Instruction Exact → Prop}

theorem forall₂_nameAll (h : List.Forall₂ S fields ws)
    (hR : ∀ f w, S f w → R f (w.relabel (.record [f]))) :
    List.Forall₂ R fields (nameAll fields ws) := by
  induction h with
  | nil => exact .nil
  | cons hw _ ih => exact .cons (hR _ _ hw) ih

theorem forall₂_of_nameAll (h : List.Forall₂ S fields ws)
    (hn : List.Forall₂ R fields (nameAll fields ws))
    (hT : ∀ f w, S f w → R f (w.relabel (.record [f])) → T f w) : List.Forall₂ T fields ws := by
  induction h with
  | nil => exact .nil
  | cons hw _ ih =>
    cases hn with
    | cons hy hn => exact .cons (hT _ _ hw hy) (ih hn)

theorem exists_stackAll_nameAll {n : Nat} (hne : ws ≠ []) (hd : (fields.map Field.name).Nodup)
    (h : List.Forall₂ (fun f w => w.Typed (.scalar f.kind) ∧ w.length = n) fields ws) :
    ∃ x, stackAll (nameAll fields ws) = .ok x ∧ PlaysChannels x n fields ws := by
  have hkinds {f : Field} {w : Instruction Exact} (hw : w.Typed (.scalar f.kind)) :
      (SampleType.record [f]).kinds = w.sampleType.kinds := by
    rw [hw.sampleType]
    rfl
  have hnamed : List.Forall₂ (fun f y => y.Typed (.record [f]) ∧ y.length = n) fields
      (nameAll fields ws) := by
    apply forall₂_nameAll h
    intro f w hw
    exact ⟨typed_relabel hw.1.normal (hkinds hw.1), (length_relabel w _).trans hw.2⟩
  have hne' : nameAll fields ws ≠ [] := by
    apply List.ne_nil_of_length_pos
    rw [← hnamed.length_eq, h.length_eq]
    exact List.length_pos_of_ne_nil hne
  obtain ⟨x, hx, ht, hl, hf⟩ := exists_stackAll_named hne' hnamed hd
  refine ⟨x, hx, ht, hl, ?_⟩
  apply forall₂_of_nameAll h (hf isDivisible_exact fun y _ r _ => trivial)
  rintro f w hw ⟨y, hy, hyw⟩
  exact ⟨y, hy, hyw.trans (toPattern_relabel hw.1.normal (hkinds hw.1))⟩

end Names

section Functions

variable [Kernel Exact] {c : ShotContext Exact} {step : TimeStep}
  {compile : String → Compilation Exact (Instruction Exact)} {p q : Progress Exact}
  {before after : Nat}

theorem channelWaveform_ok (hc : c.times.Ordered) (hcompile : c.Compiles compile) (hp : c.Valid p)
    {channel : Channel Exact} {x : Instruction Exact}
    (h : c.channelWaveform compile step channel before after p = .ok (x, q)) :
    c.Valid q ∧ x.Typed (.scalar channel.kind) ∧ x.length = before + c.ticks step + after := by
  obtain ⟨y, hy, hx⟩ := channelWaveform_eq_ok_iff.mp h
  obtain ⟨hq, hn, hl⟩ := output_ok hc hcompile hp hy
  obtain ⟨ht, hxl⟩ := typed_asType hn hx
  exact ⟨hq, ht, hxl.trans hl⟩

theorem length_channelWaveform_lt (hc : c.times.Ordered) (hcompile : c.Compiles compile)
    (hp : c.Valid p) {channel : Channel Exact} {x : Instruction Exact}
    (h : c.channelWaveform compile step channel before after p = .ok (x, q)) :
    before + c.ticks step + after < wordModulus := by
  obtain ⟨y, hy, _⟩ := channelWaveform_eq_ok_iff.mp h
  obtain ⟨_, _, hl⟩ := output_ok hc hcompile hp hy
  rw [← hl]
  exact length_output_lt (fillsShot_of_ordered hc hcompile hp) hy

section Waveforms

variable (c step compile before after) in
def waveforms (channels : List (Channel Exact)) : Compilation Exact (List (Instruction Exact)) :=
  channels.mapM fun channel => c.channelWaveform compile step channel before after

theorem waveforms_cons_eq_ok_iff {channel : Channel Exact} {channels : List (Channel Exact)}
    {ws : List (Instruction Exact)} :
    c.waveforms step compile before after (channel :: channels) p = .ok (ws, q)
      ↔ ∃ w r rest, c.channelWaveform compile step channel before after p = .ok (w, r)
        ∧ c.waveforms step compile before after channels r = .ok (rest, q) ∧ ws = w :: rest := by
  simp only [waveforms, List.mapM_cons, Compilation.bind_eq_ok_iff, Compilation.pure_eq_ok_iff]
  constructor
  . rintro ⟨w, r, hw, rest, s, hrest, rfl, rfl⟩
    exact ⟨w, r, rest, hw, hrest, rfl⟩
  . rintro ⟨w, r, rest, hw, hrest, rfl⟩
    exact ⟨w, r, hw, rest, q, hrest, rfl, rfl⟩

theorem waveforms_ok (hc : c.times.Ordered) (hcompile : c.Compiles compile) (hp : c.Valid p)
    {channels : List (Channel Exact)} {ws : List (Instruction Exact)} (number : Nat)
    (h : c.waveforms step compile before after channels p = .ok (ws, q)) :
    c.Valid q ∧ List.Forall₂
      (fun f w => w.Typed (.scalar f.kind) ∧ w.length = before + c.ticks step + after)
      (channelFields number channels) ws := by
  induction channels generalizing p ws number with
  | nil =>
    obtain ⟨rfl, rfl⟩ := Compilation.pure_eq_ok_iff.mp h
    exact ⟨hp, .nil⟩
  | cons channel channels ih =>
    obtain ⟨w, r, rest, hw, hrest, rfl⟩ := waveforms_cons_eq_ok_iff.mp h
    obtain ⟨hr, hw⟩ := channelWaveform_ok hc hcompile hp hw
    obtain ⟨hq, hrest⟩ := ih hr (number + 1) hrest
    rw [channelFields_cons]
    exact ⟨hq, .cons hw hrest⟩

theorem length_lt_of_waveforms (hc : c.times.Ordered) (hcompile : c.Compiles compile)
    (hp : c.Valid p) {channels : List (Channel Exact)} (hne : channels ≠ [])
    {ws : List (Instruction Exact)}
    (h : c.waveforms step compile before after channels p = .ok (ws, q)) :
    before + c.ticks step + after < wordModulus := by
  cases channels with
  | nil => contradiction
  | cons channel channels =>
    obtain ⟨w, r, rest, hw, _⟩ := waveforms_cons_eq_ok_iff.mp h
    exact length_channelWaveform_lt hc hcompile hp hw

theorem channelWaveforms_eq_ok_iff (hc : c.times.Ordered) (hcompile : c.Compiles compile)
    (hp : c.Valid p) {name : String} {number : Nat} {channels : List (Channel Exact)}
    {ys : List (Instruction Exact)} :
    c.channelWaveforms compile name step before after number channels p = .ok (ys, q)
      ↔ ∃ ws, c.waveforms step compile before after channels p = .ok (ws, q)
        ∧ ys = nameAll (channelFields number channels) ws := by
  induction channels generalizing p number ys with
  | nil =>
    rw [channelWaveforms, Compilation.pure_eq_ok_iff]
    constructor
    . rintro ⟨rfl, rfl⟩
      exact ⟨[], rfl, rfl⟩
    . rintro ⟨ws, h, rfl⟩
      obtain ⟨rfl, rfl⟩ := Compilation.pure_eq_ok_iff.mp h
      exact ⟨rfl, rfl⟩
  | cons channel channels ih =>
    -- a waveform has the kind of its channel, so it can be named
    have hname {w : Instruction Exact} (hw : w.Typed (.scalar channel.kind)) :
        w.withName (channelName number)
          = .ok (w.relabel (.record [⟨channelName number, channel.kind⟩])) := by
      unfold withName
      rw [hw.sampleType]
      rfl
    rw [channelWaveforms_cons_eq_ok_iff, channelFields_cons]
    constructor
    . rintro ⟨w, r, y, rest, hw, hy, hrest, rfl⟩
      obtain ⟨hr, ht, _⟩ := channelWaveform_ok hc hcompile hp hw
      obtain ⟨ws, hws, rfl⟩ := (ih hr).mp hrest
      rw [hname ht] at hy
      cases hy
      exact ⟨w :: ws, waveforms_cons_eq_ok_iff.mpr ⟨w, r, ws, hw, hws, rfl⟩, rfl⟩
    . rintro ⟨ws, hws, rfl⟩
      obtain ⟨w, r, rest, hw, hrest, rfl⟩ := waveforms_cons_eq_ok_iff.mp hws
      obtain ⟨hr, ht, _⟩ := channelWaveform_ok hc hcompile hp hw
      exact ⟨w, r, _, _, hw, hname ht, (ih hr).mpr ⟨rest, hrest, rfl⟩, rfl⟩

end Waveforms

theorem exists_channels (hc : c.times.Ordered) (hcompile : c.Compiles compile) (hp : c.Valid p)
    (name : String) {config : Sequencer Exact} (hne : config.channels ≠ [])
    (hs : c.maxShifts config.timeStep config.channels = .ok (before, after))
    {ws : List (Instruction Exact)}
    (hws : c.waveforms config.timeStep compile before after config.channels p = .ok (ws, q)) :
    ∃ x, c.channels compile name config p = .ok (x, q)
      ∧ PlaysChannels x (before + c.ticks config.timeStep + after)
        (channelFields 0 config.channels) ws := by
  obtain ⟨hq, hall⟩ := waveforms_ok hc hcompile hp 0 hws
  have hne' : ws ≠ [] := by
    apply List.ne_nil_of_length_pos
    rw [← hall.length_eq, channelFields, List.length_mapIdx]
    exact List.length_pos_of_ne_nil hne
  obtain ⟨x, hx, hplays⟩ := exists_stackAll_nameAll hne' (nodup_channelFields _ _) hall
  refine ⟨x, ?_, hplays⟩
  apply channels_eq_ok_iff.mpr
  refine ⟨before, after, _, hs, (channelWaveforms_eq_ok_iff hc hcompile hp).mpr ⟨ws, hws, rfl⟩, ?_⟩
  refine ⟨fun h => ?_, hx⟩
  rw [h] at hx
  contradiction

/--
The instruction of a sequencer lasts as long as the shot and the shifts of its channels.
-/
theorem exists_room_of_channels (hc : c.times.Ordered) (hcompile : c.Compiles compile)
    (hp : c.Valid p) {name : String} {config : Sequencer Exact} {x : Instruction Exact}
    (h : c.channels compile name config p = .ok (x, q)) :
    c.Valid q ∧ x.Normal ∧ ∃ before after,
      c.maxShifts config.timeStep config.channels = .ok (before, after)
        ∧ x.length = before + c.ticks config.timeStep + after := by
  obtain ⟨before, after, ys, hs, hys, hne, _⟩ := channels_eq_ok_iff.mp h
  obtain ⟨ws, hws, rfl⟩ := (channelWaveforms_eq_ok_iff hc hcompile hp).mp hys
  have hchannels : config.channels ≠ [] := by
    intro he
    rw [he] at hne
    exact hne rfl
  obtain ⟨y, hy, hplays⟩ := exists_channels hc hcompile hp name hchannels hs hws
  rw [h] at hy
  cases hy
  exact ⟨(waveforms_ok hc hcompile hp 0 hws).1, hplays.typed.normal, before, after, hs,
    hplays.length⟩

theorem compileSequencer_ok (hc : c.times.Ordered) (pending : List String) :
    c.Compiles (c.compileSequencer pending) := by
  intro name p q x hp h
  -- sequencers that are compiled on the way have fewer pending ones
  induction hn : pending.length using Nat.strong_induction_on generalizing pending name p q x with
  | h n ih =>
    rcases compileSequencer_eq_ok_iff.mp h with ⟨hx, rfl⟩ | ⟨config, r, _, hconfig, hmem, hx, rfl⟩
    . exact ⟨hp, hp _ _ hx⟩
    . have hl := length_erase_lt hmem
      have hcompile : c.Compiles (c.compileSequencer (pending.erase name)) := by
        intro other p q z hp hz
        exact ih _ (by omega) _ hp hz rfl
      obtain ⟨hr, hxn, _, _, _, hxl⟩ := exists_room_of_channels hc hcompile hp hx
      have hcovers : c.CoversShot name x := ⟨config, hconfig, hxn, by omega⟩
      refine ⟨?_, hcovers⟩
      -- what has been compiled is what was before, and this sequencer
      intro other z hz
      rw [Progress.get?_compiled_finish] at hz
      split at hz
      . next he =>
        cases hz
        rw [he]
        exact hcovers
      . exact hr other z hz

/--
What may have been compiled, after any number of sequencers and channels, when the channels of a
sequencer are evaluated.
-/
inductive Reached (c : ShotContext Exact) : Progress Exact → Prop where
  | start : c.Reached {}
  | sequencer {pending : List String} {name : String} {p q : Progress Exact}
      {x : Instruction Exact} : c.Reached p → c.compileSequencer pending name p = .ok (x, q) →
      c.Reached q
  | channel {pending : List String} {step : TimeStep} {channel : Channel Exact}
      {before after : Nat} {p q : Progress Exact} {x : Instruction Exact} : c.Reached p →
      c.channelWaveform (c.compileSequencer pending) step channel before after p = .ok (x, q) →
      c.Reached q

theorem valid_of_reached (hc : c.times.Ordered) (h : c.Reached p) : c.Valid p := by
  induction h with
  | start =>
    intro name x hx
    contradiction
  | sequencer _ h ih => exact (compileSequencer_ok hc _ ih h).1
  | channel _ h ih => exact (channelWaveform_ok hc (compileSequencer_ok hc _) ih h).1

/--
Channels whose waveforms can be evaluated always fit together, and their ticks fit a word.
-/
theorem exists_channels_playing_waveforms {steps : List Step}
    (ht : StepTimes.evaluate steps c.scope = .ok c.times)
    {pending : List String} {name : String} {config : Sequencer Exact}
    (hne : config.channels ≠ []) (hp : c.Reached p) {shifts : List (Nat × Nat)}
    (hs : config.channels.mapM (fun channel => c.shifts config.timeStep channel.output)
      = .ok shifts)
    {before after : Nat} (hb : (shifts.map Prod.fst).foldl max 0 = before)
    (ha : (shifts.map Prod.snd).foldl max 0 = after) {ws : List (Instruction Exact)}
    (hws : c.waveforms config.timeStep (c.compileSequencer pending) before after config.channels p
      = .ok (ws, q)) :
    before + c.ticks config.timeStep + after < wordModulus
      ∧ ∃ x, c.channels (c.compileSequencer pending) name config p = .ok (x, q)
        ∧ PlaysChannels x (before + c.ticks config.timeStep + after)
          (channelFields 0 config.channels) ws := by
  have hc : c.times.Ordered := StepTimes.ordered_of_evaluate ht
  have hcompile : c.Compiles (c.compileSequencer pending) := compileSequencer_ok hc pending
  have hvalid := valid_of_reached hc hp
  have hroom := maxShifts_eq_ok_iff.mpr ⟨shifts, hs, hb, ha⟩
  exact ⟨length_lt_of_waveforms hc hcompile hvalid hne hws,
    exists_channels hc hcompile hvalid name hne hroom hws⟩

end Functions

section Shots

attribute [local instance] Exact.zeroFunctions

/--
A channel with a delay next to a channel without.
-/
def delayedSequencer : Sequencer Exact where
  timeStep := .microsecond
  trigger := .software
  channels := [.digital "first" (.laneValues "gate" none),
    .digital "second" (.delay (.laneValues "gate" none) ⟨"1 us"⟩)]

def delayedSteps : List Step := [⟨"only", ⟨"2 us"⟩⟩]

def delayedShot : ShotContext Exact where
  lanes := ⟨[("gate", .digital [⟨.literal true, 1⟩])]⟩
  devices := ⟨[("seq", .sequencer delayedSequencer)]⟩
  times := (StepTimes.evaluate delayedSteps .empty).toOption.getD (.ofDurations [] [])
  scope := .empty

theorem exists_channels_playing_waveforms_delayed :
    ∃ ws q x, delayedShot.waveforms delayedSequencer.timeStep (delayedShot.compileSequencer [])
        0 1 delayedSequencer.channels {} = .ok (ws, q)
      ∧ delayedShot.channels (delayedShot.compileSequencer []) "seq" delayedSequencer {}
        = .ok (x, q)
      ∧ PlaysChannels x (0 + delayedShot.ticks delayedSequencer.timeStep + 1)
        (channelFields 0 delayedSequencer.channels) ws := by
  have ht : StepTimes.evaluate delayedSteps delayedShot.scope = .ok delayedShot.times :=
    Outcome.eq_ok_of_isOk (by decide +kernel) _
  have hs := Outcome.eq_ok_of_isOk (x := delayedSequencer.channels.mapM fun channel =>
    delayedShot.shifts delayedSequencer.timeStep channel.output) (by decide +kernel) []
  have hws := Outcome.eq_ok_of_isOk (x := delayedShot.waveforms delayedSequencer.timeStep
    (delayedShot.compileSequencer []) 0 1 delayedSequencer.channels {}) (by decide +kernel) ([], {})
  obtain ⟨_, x, hx, hplays⟩ := exists_channels_playing_waveforms ht
    (by decide) .start hs (by decide +kernel) (by decide +kernel) hws
  exact ⟨_, _, x, hws, hx, hplays⟩

end Shots

end Waveplan.ShotContext
