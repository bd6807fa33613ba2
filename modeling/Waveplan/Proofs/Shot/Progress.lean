import Mathlib.Data.List.Induction
import Waveplan.Proofs.Device
import Waveplan.Proofs.Shot.Calls
import Waveplan.Proofs.Shot.Settled

/-!
This module contains what successful calls leave behind. What has been compiled and read stays, and
what is added are the sequencers that were called and the lanes that were read in the meantime.
-/

namespace Waveplan.ShotContext

variable {α : Type} [Number α] [Kernel α] {c : ShotContext α} {p q r : Progress α} {x : Instruction α}

section Channels

variable {compile : String → Compilation α (Instruction α)} {step : TimeStep}
  {before after : Nat} {channel : Channel α}

theorem exists_settles_of_channelWaveform
    (h : c.channelWaveform compile step channel before after p = .ok (x, q)) :
    ∃ z, c.Descends step ⟨channel.output, channel.unit, 0⟩ z ∧ c.Settles compile step p z q := by
  obtain ⟨y, hy, _⟩ := channelWaveform_eq_ok_iff.mp h
  exact exists_settles 0 hy

theorem fits_of_channelWaveform {channels : List (Channel α)}
    (hs : c.maxShifts step channels = .ok (before, after))
    (h : c.channelWaveform compile step channel before after p = .ok (x, q)) :
    c.Fits step before after ⟨channel.output, channel.unit, 0⟩ := by
  obtain ⟨y, hy, _⟩ := channelWaveform_eq_ok_iff.mp h
  obtain ⟨hb, ha⟩ := maxShifts_lt hs
  exact fits_of_output 0 hb ha hy

theorem channelWaveforms_append_eq_ok_iff {name : String} {number : Nat}
    {earlier later : List (Channel α)} {ys : List (Instruction α)} :
    c.channelWaveforms compile name step before after number (earlier ++ later) p = .ok (ys, q)
      ↔ ∃ zs r rest,
        c.channelWaveforms compile name step before after number earlier p = .ok (zs, r)
        ∧ c.channelWaveforms compile name step before after (number + earlier.length) later r
          = .ok (rest, q)
        ∧ ys = zs ++ rest := by
  induction earlier generalizing number p ys with
  | nil =>
    simp only [List.nil_append, channelWaveforms, Compilation.pure_eq_ok_iff, List.length_nil,
      Nat.add_zero]
    constructor
    . intro h
      exact ⟨[], p, ys, ⟨rfl, rfl⟩, h, rfl⟩
    . rintro ⟨_, _, rest, ⟨rfl, rfl⟩, h, rfl⟩
      exact h
  | cons channel earlier ih =>
    have hn : number + 1 + earlier.length = number + (channel :: earlier).length := by
      rw [List.length_cons]
      omega
    rw [List.cons_append, channelWaveforms_cons_eq_ok_iff]
    simp only [channelWaveforms_cons_eq_ok_iff, ih, hn]
    constructor
    . rintro ⟨x, r, y, _, hx, hy, ⟨zs, s, rest, hzs, hrest, rfl⟩, rfl⟩
      exact ⟨_, s, rest, ⟨x, r, y, zs, hx, hy, hzs, rfl⟩, hrest, rfl⟩
    . rintro ⟨_, s, rest, ⟨x, r, y, zs, hx, hy, hzs, rfl⟩, hrest, rfl⟩
      exact ⟨x, r, y, _, hx, hy, ⟨zs, s, rest, hzs, hrest, rfl⟩, rfl⟩

/--
What every channel preserves in its turn is preserved by all of them.
-/
theorem channelWaveforms_preserves {I : Progress α → Prop} {name : String} {number : Nat}
    {channels : List (Channel α)} {ys : List (Instruction α)}
    (h : c.channelWaveforms compile name step before after number channels p = .ok (ys, q))
    (hp : I p)
    (hI : ∀ earlier channel later zs r s x, channels = earlier ++ channel :: later →
      c.channelWaveforms compile name step before after number earlier p = .ok (zs, r) →
      c.channelWaveform compile step channel before after r = .ok (x, s) → I r → I s) : I q := by
  induction channels using List.reverseRecOn generalizing q ys with
  | nil =>
    obtain ⟨_, rfl⟩ := Compilation.pure_eq_ok_iff.mp h
    exact hp
  | append_singleton channels channel ih =>
    obtain ⟨zs, r, rest, hzs, hrest, _⟩ := channelWaveforms_append_eq_ok_iff.mp h
    obtain ⟨x, s, y, _, hx, _, hs, _⟩ := channelWaveforms_cons_eq_ok_iff.mp hrest
    obtain ⟨_, rfl⟩ := Compilation.pure_eq_ok_iff.mp hs
    apply hI channels channel [] zs r _ x rfl hzs hx
    apply ih hzs
    intro earlier other later zs r s x hsplit
    exact hI earlier other (later ++ [channel]) zs r s x (by rw [hsplit, List.append_assoc]; rfl)

/--
What the lanes that are read and the sequencers that are triggered preserve is preserved by all
channels.
-/
theorem channelWaveforms_invariant {I : Progress α → Prop} {name : String} {number : Nat}
    {channels : List (Channel α)} {ys : List (Instruction α)}
    (h : c.channelWaveforms compile name step before after number channels p = .ok (ys, q))
    (hp : I p)
    (hread : ∀ channel ∈ channels, ∀ lane r,
      c.Reads step ⟨channel.output, channel.unit, 0⟩ lane → I r → I (r.read lane))
    (hcall : ∀ channel ∈ channels, ∀ device slave r s,
      c.Triggers step ⟨channel.output, channel.unit, 0⟩ device →
        compile device r = .ok (slave, s) → I r → I s) : I q := by
  apply channelWaveforms_preserves h hp
  intro earlier channel later zs r s x hsplit _ hx hr
  have hm : channel ∈ channels := by simp [hsplit]
  obtain ⟨z, hz, hsettles⟩ := exists_settles_of_channelWaveform hx
  rcases hsettles.cases_progress hz with rfl | ⟨lane, hl, rfl⟩ | ⟨device, slave, hd, hslave⟩
  . exact hr
  . exact hread channel hm lane r hl hr
  . exact hcall channel hm device slave r s hd hslave hr

end Channels

/--
A call of a sequencer that has not been compiled before, up to the point where its channels have
been put together.
-/
structure FirstRun (c : ShotContext α) (u : Call α) (config : Sequencer α) (x : Instruction α)
    (q : Progress α) : Prop where
  not_compiled : u.progress.compiled.get? u.name = none
  configured : (c.devices.get? u.name).bind Device.sequencer? = some config
  isPending : u.name ∈ u.pending
  channels : c.channels (c.compileSequencer (u.pending.erase u.name)) u.name config u.progress
    = .ok (x, q)

/--
That a lane is read during a call.
-/
inductive ReadsIn (c : ShotContext α) (u : Call α) (lane : String) : Prop where
  | turn {config : Sequencer α} {before after : Nat} {channel : Channel α} {q : Progress α} :
      c.Turn u.pending u.name u.progress config before after channel q →
      c.Fits config.timeStep before after ⟨channel.output, channel.unit, 0⟩ →
      c.Reads config.timeStep ⟨channel.output, channel.unit, 0⟩ lane → c.ReadsIn u lane

variable {u v : Call α} {config : Sequencer α}

/--
A call that succeeds finds its sequencer compiled, or compiles it.
-/
theorem call_eq_ok_iff :
    c.call u = .ok (x, q) ↔ (u.progress.compiled.get? u.name = some x ∧ q = u.progress)
      ∨ ∃ config r, c.FirstRun u config x r ∧ q = r.finish u.name x := by
  rw [call, compileSequencer_eq_ok_iff]
  apply or_congr_right
  constructor
  . rintro ⟨config, r, hx, hconfig, hmem, h, rfl⟩
    exact ⟨config, r, ⟨hx, hconfig, hmem, h⟩, rfl⟩
  . rintro ⟨config, r, ⟨hx, hconfig, hmem, h⟩, rfl⟩
    exact ⟨config, r, hx, hconfig, hmem, h, rfl⟩

theorem FirstRun.exists_waveforms (h : c.FirstRun u config x q) : ∃ before after ys,
    c.maxShifts config.timeStep config.channels = .ok (before, after)
      ∧ c.channelWaveforms (c.compileSequencer (u.pending.erase u.name)) u.name config.timeStep
        before after 0 config.channels u.progress = .ok (ys, q)
      ∧ ys ≠ [] ∧ Instruction.stackAll ys = .ok x :=
  channels_eq_ok_iff.mp h.channels

theorem FirstRun.turn (h : c.FirstRun u config x q) {before after : Nat}
    (hs : c.maxShifts config.timeStep config.channels = .ok (before, after))
    {earlier later : List (Channel α)} {channel : Channel α} {zs : List (Instruction α)}
    (hsplit : config.channels = earlier ++ channel :: later)
    (hzs : c.channelWaveforms (c.compileSequencer (u.pending.erase u.name)) u.name config.timeStep
      before after 0 earlier u.progress = .ok (zs, r)) :
    c.Turn u.pending u.name u.progress config before after channel r :=
  ⟨h.not_compiled, h.configured, h.isPending, hs, earlier, later, zs, hsplit, hzs⟩

/--
What the lanes that are read and the calls that are made preserve is preserved by the call that
makes them.
-/
theorem FirstRun.preserves {I : Progress α → Prop} (h : c.FirstRun u config x q)
    (hu : I u.progress) (hread : ∀ r lane, c.ReadsIn u lane → I r → I (r.read lane))
    (hcall : ∀ v y r, c.Calls u v → c.call v = .ok (y, r) → I v.progress → I r) : I q := by
  obtain ⟨before, after, ys, hs, hys, _, _⟩ := h.exists_waveforms
  apply channelWaveforms_preserves hys hu
  intro earlier channel later zs r s w hsplit hzs hw hr
  have ht := h.turn hs hsplit hzs
  have hfits := fits_of_channelWaveform hs hw
  obtain ⟨z, hz, hsettles⟩ := exists_settles_of_channelWaveform hw
  rcases hsettles.cases_progress hz with rfl | ⟨lane, hl, rfl⟩ | ⟨device, slave, hd, hslave⟩
  . exact hr
  . exact hread r lane (.turn ht hfits hl) hr
  . exact hcall _ slave s (.trigger ht hfits hd) hslave hr

/--
What lanes that are read and sequencers that are compiled preserve is preserved by every call.
-/
theorem call_preserves {I : Progress α → Prop}
    (hread : ∀ v r lane, c.Leads u v → c.ReadsIn v lane → I r → I (r.read lane))
    (hfinish : ∀ v config x r, c.Leads u v → c.FirstRun v config x r → I v.progress → I r →
      I (r.finish v.name x))
    (hu : I u.progress) (h : c.call u = .ok (x, q)) : I q := by
  induction u using (wellFounded_calls c).induction generalizing x q with
  | _ u ih =>
    rcases call_eq_ok_iff.mp h with ⟨_, rfl⟩ | ⟨config, r, hrun, rfl⟩
    . exact hu
    . apply hfinish u config x r .refl hrun hu
      apply hrun.preserves hu
      . exact fun r lane => hread u r lane .refl
      . intro v y s huv hv hp
        apply ih v huv _ _ hp hv
        . exact fun w r lane hw => hread w r lane (.head huv hw)
        . exact fun w config x r hw => hfinish w config x r (.head huv hw)

/--
That what has been compiled and read stays.
-/
structure Extends (p q : Progress α) : Prop where
  compiled {name : String} {x : Instruction α} :
    p.compiled.get? name = some x → q.compiled.get? name = some x
  usedLanes {lane : String} : p.usedLanes.contains lane → q.usedLanes.contains lane

omit [Number α] [Kernel α] in
theorem Extends.refl (p : Progress α) : Extends p p := ⟨id, id⟩

omit [Number α] [Kernel α] in
theorem Extends.trans (h : Extends p q) (h' : Extends q r) : Extends p r :=
  ⟨h'.compiled ∘ h.compiled, h'.usedLanes ∘ h.usedLanes⟩

omit [Number α] [Kernel α] in
theorem Extends.contains (h : Extends p q) {name : String} (hp : p.compiled.contains name) :
    q.compiled.contains name := by
  obtain ⟨x, hx⟩ := Option.isSome_iff_exists.mp hp
  exact Option.isSome_iff_exists.mpr ⟨x, h.compiled hx⟩

omit [Number α] [Kernel α] in
theorem extends_read (p : Progress α) (lane : String) : Extends p (p.read lane) :=
  ⟨id, fun h => (p.contains_usedLanes_read _ _).mpr (.inr h)⟩

omit [Number α] [Kernel α] in
theorem Extends.finish (h : Extends p q) {name : String} (hp : p.compiled.get? name = none) :
    Extends p (q.finish name x) where
  compiled {other y} hy := by
    rw [Progress.get?_compiled_finish]
    split
    . next he =>
      rw [he, hp] at hy
      contradiction
    . exact h.compiled hy
  usedLanes := h.usedLanes

theorem call_extends (h : c.call u = .ok (x, q)) : Extends u.progress q := by
  apply call_preserves (I := Extends u.progress) _ _ (.refl _) h
  . exact fun v r lane _ _ hr => hr.trans (extends_read r lane)
  . intro v config y r _ hrun hv hr
    apply hr.finish
    -- the sequencer had not been compiled when it was called, so even less before
    cases hu : u.progress.compiled.get? v.name with
    | none => rfl
    | some z => exact absurd (hv.compiled hu) (by simp [hrun.not_compiled])

/--
A sequencer that has been compiled is one that was called.
-/
theorem exists_firstRun (h : c.call u = .ok (x, q)) {name : String} {y : Instruction α}
    (hy : q.compiled.get? name = some y) (hn : u.progress.compiled.get? name ≠ some y) :
    ∃ v config r, c.Leads u v ∧ c.FirstRun v config y r ∧ v.name = name := by
  have hI : q.compiled.get? name = some y → u.progress.compiled.get? name = some y
      ∨ ∃ v config r, c.Leads u v ∧ c.FirstRun v config y r ∧ v.name = name := by
    apply call_preserves (I := fun q => q.compiled.get? name = some y →
      u.progress.compiled.get? name = some y
        ∨ ∃ v config r, c.Leads u v ∧ c.FirstRun v config y r ∧ v.name = name) _ _ .inl h
    . exact fun v r lane _ _ hr => hr
    . intro v config z r huv hrun _ hr hz
      rw [Progress.get?_compiled_finish] at hz
      split at hz
      . next he =>
        cases hz
        exact .inr ⟨v, config, r, huv, hrun, he.symm⟩
      . exact hr hz
  exact (hI hy).resolve_left hn

/--
A lane that has been read was read during some call.
-/
theorem exists_readsIn (h : c.call u = .ok (x, q)) {lane : String}
    (hl : q.usedLanes.contains lane) (hn : ¬u.progress.usedLanes.contains lane) :
    ∃ v, c.Leads u v ∧ c.ReadsIn v lane := by
  have hI : q.usedLanes.contains lane → u.progress.usedLanes.contains lane
      ∨ ∃ v, c.Leads u v ∧ c.ReadsIn v lane := by
    apply call_preserves (I := fun q => q.usedLanes.contains lane →
      u.progress.usedLanes.contains lane ∨ ∃ v, c.Leads u v ∧ c.ReadsIn v lane) _ _ .inl h
    . intro v r other huv hread hr hl
      rcases (r.contains_usedLanes_read other lane).mp hl with rfl | hl
      . exact .inr ⟨v, huv, hread⟩
      . exact hr hl
    . exact fun v config y r _ _ _ hr => hr
  exact (hI hl).resolve_left hn

/--
A sequencer that is not pending is not compiled either.
-/
theorem get?_eq_none_of_not_pending (h : c.call u = .ok (x, q)) {name : String}
    (hn : name ∉ u.pending) (hu : u.progress.compiled.get? name = none) :
    q.compiled.get? name = none := by
  by_contra hq
  obtain ⟨y, hy⟩ := Option.ne_none_iff_exists'.mp hq
  obtain ⟨v, config, r, huv, hrun, rfl⟩ := exists_firstRun h hy (by simp [hu])
  exact hn (Leads.pending_subset huv hrun.isPending)

theorem FirstRun.get?_eq_none (h : c.FirstRun u config x q) (hu : u.pending.Nodup) :
    q.compiled.get? u.name = none := by
  apply h.preserves (I := fun q => q.compiled.get? u.name = none) h.not_compiled
  . exact fun r lane _ hr => hr
  . intro v y r huv hv hr
    exact get?_eq_none_of_not_pending hv (Leads.not_pending (.single huv) hu) hr

theorem FirstRun.extends_finish (h : c.FirstRun u config x q) (hu : u.pending.Nodup) :
    Extends q (q.finish u.name x) :=
  (Extends.refl q).finish (h.get?_eq_none hu)

/--
A channel in its turn, on the way through all channels.
-/
theorem FirstRun.exists_turn (h : c.FirstRun u config x q) {before after : Nat}
    {channel : Channel α}
    (ht : c.Turn u.pending u.name u.progress config before after channel p) :
    ∃ w r, c.channelWaveform (c.compileSequencer (u.pending.erase u.name)) config.timeStep channel
      before after p = .ok (w, r) ∧ Extends r q := by
  obtain ⟨before', after', ys, hs, hys, _, _⟩ := h.exists_waveforms
  obtain ⟨earlier, later, zs, hsplit, hzs⟩ := ht.earlier
  have hroom := ht.room
  rw [hs] at hroom
  cases hroom
  rw [hsplit] at hys
  obtain ⟨zs', r, rest, hzs', hrest, _⟩ := channelWaveforms_append_eq_ok_iff.mp hys
  rw [hzs] at hzs'
  cases hzs'
  obtain ⟨w, s, y, more, hw, _, hmore, _⟩ := channelWaveforms_cons_eq_ok_iff.mp hrest
  refine ⟨w, s, hw, ?_⟩
  -- the later channels read lanes and call sequencers, which takes nothing back
  apply channelWaveforms_invariant hmore (.refl s)
  . exact fun _ _ lane r _ hr => hr.trans (extends_read r lane)
  . exact fun _ _ device _ r _ _ hslave hr => hr.trans (call_extends (u := ⟨_, device, r⟩) hslave)

/--
Every channel gets its turn, and has room for its shifts.
-/
theorem FirstRun.exists_turn_of_mem (h : c.FirstRun u config x q) {channel : Channel α}
    (hm : channel ∈ config.channels) : ∃ before after r,
      c.Turn u.pending u.name u.progress config before after channel r
        ∧ c.Fits config.timeStep before after ⟨channel.output, channel.unit, 0⟩ := by
  obtain ⟨before, after, ys, hs, hys, _, _⟩ := h.exists_waveforms
  obtain ⟨earlier, later, hsplit⟩ := List.append_of_mem hm
  rw [hsplit] at hys
  obtain ⟨zs, r, _, hzs, _, _⟩ := channelWaveforms_append_eq_ok_iff.mp hys
  have ht := h.turn hs hsplit hzs
  obtain ⟨w, s, hw, _⟩ := h.exists_turn ht
  exact ⟨before, after, r, ht, fits_of_channelWaveform hs hw⟩

/--
The calls of a call that succeeds succeed, and their sequencers can be triggered.
-/
theorem FirstRun.of_calls (h : c.FirstRun u config x q) (huv : c.Calls u v) :
    ∃ config' slave y r, c.devices.get? v.name = some (.sequencer config')
      ∧ c.call v = .ok (slave, r) ∧ Extends r q
      ∧ c.sequencerTrigger v.name config' slave config.timeStep = .ok y := by
  cases huv with
  | trigger ht ho hd =>
    have hother := ht.configured
    rw [h.configured] at hother
    cases hother
    obtain ⟨w, r, hw, hr⟩ := h.exists_turn ht
    obtain ⟨z, hz, hsettles⟩ := exists_settles_of_channelWaveform hw
    obtain ⟨config', slave, y, hg, hslave, hy⟩ := hsettles.of_triggers hz hd
    exact ⟨config', slave, y, r, hg, hslave, hr, hy⟩

theorem FirstRun.of_readsIn (h : c.FirstRun u config x q) {lane : String}
    (hread : c.ReadsIn u lane) : q.usedLanes.contains lane := by
  obtain ⟨ht, _, hl⟩ := hread
  have hother := ht.configured
  rw [h.configured] at hother
  cases hother
  obtain ⟨w, r, hw, hr⟩ := h.exists_turn ht
  obtain ⟨z, hz, hsettles⟩ := exists_settles_of_channelWaveform hw
  rw [hsettles.of_reads hz hl] at hr
  exact hr.usedLanes ((Progress.contains_usedLanes_read _ _ _).mpr (.inl rfl))

/--
A call that has made another call compiles its sequencer.
-/
theorem exists_firstRun_of_calls (h : c.call u = .ok (x, q)) (huv : c.Calls u v) :
    ∃ config r, c.FirstRun u config x r ∧ q = r.finish u.name x := by
  refine (call_eq_ok_iff.mp h).resolve_left ?_
  rintro ⟨hx, _⟩
  cases huv with
  | trigger ht _ _ => exact absurd ht.not_compiled (by simp [hx])

theorem exists_call_of_leads (h : c.call u = .ok (x, q)) (hu : u.pending.Nodup)
    (huv : c.Leads u v) : ∃ y r, c.call v = .ok (y, r) ∧ Extends r q := by
  induction huv with
  | refl => exact ⟨x, q, h, .refl q⟩
  | @tail v w huv hvw ih =>
    obtain ⟨y, r, hv, hr⟩ := ih
    obtain ⟨config, s, hrun, rfl⟩ := exists_firstRun_of_calls hv hvw
    obtain ⟨_, slave, _, t, _, hw, ht, _⟩ := hrun.of_calls hvw
    exact ⟨slave, t, hw,
      (ht.trans (hrun.extends_finish (Leads.nodup_pending huv hu))).trans hr⟩

theorem get?_compiled_of_call (h : c.call u = .ok (x, q)) :
    q.compiled.get? u.name = some x := by
  rcases call_eq_ok_iff.mp h with ⟨hx, rfl⟩ | ⟨config, r, _, rfl⟩
  . exact hx
  . rw [Progress.get?_compiled_finish, if_pos rfl]

/--
A sequencer that is being compiled has not been compiled yet.
-/
theorem Calls.get?_eq_none (h : c.Calls u v) {name : String} (hn : name ∉ v.pending)
    (hu : u.progress.compiled.get? name = none) : v.progress.compiled.get? name = none := by
  cases h with
  | trigger ht _ _ =>
    obtain ⟨earlier, later, ys, hsplit, hys⟩ := ht.earlier
    apply channelWaveforms_invariant (I := fun p => p.compiled.get? name = none) hys hu
    . exact fun _ _ _ _ _ hr => hr
    . exact fun _ _ device _ r _ _ hslave hr =>
        get?_eq_none_of_not_pending (u := ⟨_, device, r⟩) hslave hn hr

theorem get?_eq_none_of_transGen (h : Relation.TransGen c.Calls u v) (hu : u.pending.Nodup) :
    v.progress.compiled.get? u.name = none := by
  induction h with
  | single h =>
    apply h.get?_eq_none (Leads.not_pending (.single h) hu)
    cases h with
    | trigger ht _ _ => exact ht.not_compiled
  | tail huw h ih => exact h.get?_eq_none (Leads.not_pending (.tail huw h) hu) ih

/--
A call that leads back to its sequencer leads to a sequencer that is being compiled.
-/
theorem isBusy_of_transGen (h : Relation.TransGen c.Calls u v) (hu : u.pending.Nodup)
    (hname : v.name = u.name) : c.IsBusy v.pending v.name v.progress := by
  obtain ⟨w, _, hwv⟩ := Relation.TransGen.tail'_iff.mp h
  obtain ⟨config, hg⟩ := hwv.configured
  refine ⟨?_, ⟨config, bind_sequencer?_eq_some_iff.mpr hg⟩, ?_⟩
  . rw [hname]
    exact get?_eq_none_of_transGen h hu
  . rw [hname]
    exact Leads.not_pending h hu

theorem IsBusy.call_ne_ok (h : c.IsBusy u.pending u.name u.progress) : c.call u ≠ .ok (x, q) := by
  intro hok
  rcases call_eq_ok_iff.mp hok with ⟨hx, _⟩ | ⟨config, r, hrun, _⟩
  . exact absurd h.not_compiled (by simp [hx])
  . exact h.not_pending hrun.isPending

end Waveplan.ShotContext
