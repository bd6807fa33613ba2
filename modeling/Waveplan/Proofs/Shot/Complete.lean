import Waveplan.Formula.Kernel
import Waveplan.Proofs.Clock
import Waveplan.Proofs.Exact
import Waveplan.Proofs.Shot.Depth
import Waveplan.Proofs.Shot.Progress

/-!
This module contains that a compilation that succeeds has compiled every sequencer and read every
lane, and that otherwise it names exactly those that it has not come to.
-/

namespace Waveplan.ShotContext

variable {α : Type} [Number α] [Kernel α] {c : ShotContext α} {root : String} {u v : Call α}

omit [Kernel α] in
theorem sequencerTrigger_cases {name : String} {config : Sequencer α} {slave x : Instruction α}
    {step : TimeStep} (h : c.sequencerTrigger name config slave step = .ok x) :
    (∃ edge, config.trigger = .externalStart edge)
      ∨ (∃ edge, config.trigger = .externalClockOnChange edge)
        ∧ ∃ pulse : Instruction α, Clock.pulse config.timeStep step = .ok pulse := by
  unfold sequencerTrigger at h
  dsimp only at h
  split at h
  . next edge ht =>
    obtain ⟨pulse, hp, _⟩ := Outcome.bind_eq_ok_iff.mp h
    exact .inr ⟨⟨edge, ht⟩, pulse, hp⟩
  . next edge ht => exact .inl ⟨edge, ht⟩
  . contradiction

/--
That a sequencer is the root, or triggered by another one that is reached.
-/
def IsReached (c : ShotContext α) (root name : String) : Prop :=
  ∃ u, c.Leads (c.rootCall root) u ∧ u.name = name

/--
That the values of a lane are output on a channel of a sequencer that is reached.
-/
def IsRead (c : ShotContext α) (root lane : String) : Prop :=
  ∃ u, c.Leads (c.rootCall root) u ∧ c.ReadsIn u lane

theorem HasTriggered.isReached {a b : String} (h : c.HasTriggered root a b) :
    c.IsReached root a := by
  obtain ⟨u, _, hu, _, hname, _⟩ := h
  exact ⟨u, hu, hname⟩

/--
What a compilation that succeeds says about the devices and lanes of a shot.
-/
structure IsComplete (c : ShotContext α) (root : String)
    (compiled : Dictionary (Instruction α)) : Prop where
  contains_iff {name : String} :
    compiled.contains name ↔ ∃ config, c.devices.get? name = some (.sequencer config)
  software_iff {name : String} {config : Sequencer α} :
    c.devices.get? name = some (.sequencer config) → (config.trigger = .software ↔ name = root)
  trigger {name : String} {config : Sequencer α} :
    c.devices.get? name = some (.sequencer config) → name ≠ root →
      (∃ edge, config.trigger = .externalStart edge)
        ∨ ∃ edge, config.trigger = .externalClockOnChange edge
  triggered {name : String} {config : Sequencer α} :
    c.devices.get? name = some (.sequencer config) → name ≠ root →
      ∃ other, other ≠ name ∧ compiled.contains other ∧ c.HasTriggered root other name
  clock {a b : String} {master slave : Sequencer α} {edge : Edge} : c.HasTriggered root a b →
    c.devices.get? a = some (.sequencer master) → c.devices.get? b = some (.sequencer slave) →
      slave.trigger = .externalClockOnChange edge →
      ∃ period, 2 ≤ period ∧ slave.timeStep.ns.toNat = period * master.timeStep.ns.toNat
  read {name : String} {lane : Lane} : c.lanes.get? name = some lane → lane.isCamera = false →
    c.IsRead root name

open Classical in
/--
The sequencers that are not reached.
-/
noncomputable def unreached (c : ShotContext α) (root : String) : List String :=
  (sequencerNames c.devices).filter fun name => ¬c.IsReached root name

open Classical in
/--
The lanes, other than those of cameras, that are not read.
-/
noncomputable def unread (c : ShotContext α) (root : String) : List String :=
  (c.lanes.entries.filter fun (name, lane) => !lane.isCamera && ¬c.IsRead root name).map Prod.fst

section Root

variable (hn : c.devices.names.Nodup) {x : Instruction α} {p : Progress α}
  (h : c.call (c.rootCall root) = .ok (x, p))

include hn h

theorem contains_compiled_iff {name : String} :
    p.compiled.contains name ↔ c.IsReached root name := by
  constructor
  . intro hname
    obtain ⟨y, hy⟩ := Option.isSome_iff_exists.mp hname
    obtain ⟨v, _, _, hv, _, hname⟩ := exists_firstRun h hy (by simp [rootCall, Dictionary.get?,
      Dictionary.empty])
    exact ⟨v, hv, hname⟩
  . rintro ⟨v, hv, rfl⟩
    obtain ⟨y, r, hy, hr⟩ := exists_call_of_leads h (nodup_sequencerNames hn) hv
    apply hr.contains
    rw [Dictionary.contains, get?_compiled_of_call hy]
    rfl

theorem contains_usedLanes_iff {lane : String} :
    p.usedLanes.contains lane ↔ c.IsRead root lane := by
  constructor
  . intro hl
    exact exists_readsIn h hl (by simp [rootCall, Dictionary.contains, Dictionary.get?,
      Dictionary.empty])
  . rintro ⟨v, hv, hread⟩
    obtain ⟨y, r, hy, hr⟩ := exists_call_of_leads h (nodup_sequencerNames hn) hv
    rcases call_eq_ok_iff.mp hy with ⟨hx, _⟩ | ⟨config, s, hrun, rfl⟩
    . obtain ⟨ht, _, _⟩ := hread
      exact absurd ht.not_compiled (by simp [hx])
    . exact hr.usedLanes (hrun.of_readsIn hread)

/--
The calls of a compilation that succeeds have compiled what they trigger.
-/
theorem exists_sequencerTrigger (hu : c.Leads (c.rootCall root) u) (huv : c.Calls u v) :
    ∃ master slave y z, c.devices.get? u.name = some (.sequencer master)
      ∧ c.devices.get? v.name = some (.sequencer slave)
      ∧ c.sequencerTrigger v.name slave y master.timeStep = .ok z := by
  obtain ⟨_, _, hcall, _⟩ := exists_call_of_leads h (nodup_sequencerNames hn) hu
  obtain ⟨master, _, hrun, _⟩ := exists_firstRun_of_calls hcall huv
  obtain ⟨slave, y, z, _, hg, _, _, hz⟩ := hrun.of_calls huv
  exact ⟨master, slave, y, z, bind_sequencer?_eq_some_iff.mp hrun.configured, hg, hz⟩

open Classical in
/--
When the root can be compiled, what is left out is named: sequencers that are not reached, or else
lanes that are not read.
-/
theorem compileSequencers_of_call :
    c.compileSequencers root =
      if c.unreached root ≠ [] then .error (.unreachedSequencers root (c.unreached root))
      else if c.unread root ≠ [] then .error (.unusedLanes (c.unread root))
      else .ok p.compiled := by
  have hcall : (c.compileSequencer (sequencerNames c.devices) root).run {} = .ok (x, p) := h
  have hreached : c.unreached root
      = (sequencerNames c.devices).filter fun name => !p.compiled.contains name := by
    apply List.filter_congr
    intro name _
    rw [Bool.eq_iff_iff, decide_eq_true_iff, ← contains_compiled_iff hn h, Bool.not_eq_true,
      Bool.not_eq_true']
  have hread : c.unread root = (c.lanes.entries.filter fun (name, lane) =>
      !lane.isCamera && !p.usedLanes.contains name).map Prod.fst := by
    apply congrArg (List.map Prod.fst)
    apply List.filter_congr
    rintro ⟨name, lane⟩ _
    dsimp only
    rw [Bool.eq_iff_iff, Bool.and_eq_true, Bool.and_eq_true, decide_eq_true_iff,
      ← contains_usedLanes_iff hn h, Bool.not_eq_true, Bool.not_eq_true' (p.usedLanes.contains _)]
  unfold compileSequencers
  rw [hcall, hreached, hread]
  rfl

theorem exists_triggered {name : String} (hname : c.IsReached root name) (hne : name ≠ root) :
    ∃ other, other ≠ name ∧ p.compiled.contains other ∧ c.HasTriggered root other name := by
  obtain ⟨v, hv, rfl⟩ := hname
  rcases Relation.ReflTransGen.cases_tail hv with rfl | ⟨u, hu, huv⟩
  . exact absurd rfl hne
  . refine ⟨u.name, ?_, (contains_compiled_iff hn h).mpr ⟨u, hu, rfl⟩, u, v, hu, huv, rfl, rfl⟩
    -- a sequencer that triggers itself is asked for while it is compiled, which fails
    intro hself
    obtain ⟨y, r, hcall, _⟩ := exists_call_of_leads h (nodup_sequencerNames hn) (hu.tail huv)
    have hbusy := isBusy_of_transGen (.single huv)
      (Leads.nodup_pending hu (nodup_sequencerNames hn)) hself.symm
    exact hbusy.call_ne_ok hcall

/--
What triggers a sequencer knows how, and a sequencer that it clocks is slower.
-/
theorem sequencerTrigger_of_hasTriggered {a b : String} (hab : c.HasTriggered root a b)
    {master slave : Sequencer α} (ha : c.devices.get? a = some (.sequencer master))
    (hb : c.devices.get? b = some (.sequencer slave)) :
    ∃ y z, c.sequencerTrigger b slave y master.timeStep = .ok z := by
  obtain ⟨u, v, hu, huv, rfl, rfl⟩ := hab
  obtain ⟨_, _, y, z, hmaster, hslave, hz⟩ := exists_sequencerTrigger hn h hu huv
  rw [ha] at hmaster
  rw [hb] at hslave
  cases hmaster
  cases hslave
  exact ⟨y, z, hz⟩

omit h in
theorem configured_of_isReached (hr : findRoot c.devices = .ok root) {name : String}
    (hname : c.IsReached root name) : ∃ config, c.devices.get? name = some (.sequencer config) := by
  obtain ⟨v, hv, rfl⟩ := hname
  rcases Relation.ReflTransGen.cases_tail hv with rfl | ⟨u, _, huv⟩
  . obtain ⟨config, hg, _⟩ := (isRoot_iff hn hr).mp rfl
    exact ⟨config, hg⟩
  . exact huv.configured

omit h in
theorem isReached_of_configured (hreached : c.unreached root = []) {name : String}
    {config : Sequencer α} (hg : c.devices.get? name = some (.sequencer config)) :
    c.IsReached root name := by
  have hm := (mem_sequencerNames_iff hn).mpr ⟨config, hg⟩
  simpa using List.filter_eq_nil_iff.mp hreached name hm

omit hn h in
theorem isRead_of_get? (hread : c.unread root = []) {name : String} {lane : Lane}
    (hl : c.lanes.get? name = some lane) (hcamera : lane.isCamera = false) :
    c.IsRead root name := by
  have hm := Dictionary.mem_of_lookup hl
  have hfilter := List.map_eq_nil_iff.mp hread
  simpa [hcamera] using List.filter_eq_nil_iff.mp hfilter _ hm

theorem isComplete_of_call (hr : findRoot c.devices = .ok root) (hreached : c.unreached root = [])
    (hread : c.unread root = []) : c.IsComplete root p.compiled where
  contains_iff := by
    intro name
    rw [contains_compiled_iff hn h]
    constructor
    . exact configured_of_isReached hn hr
    . rintro ⟨config, hg⟩
      exact isReached_of_configured hn hreached hg
  software_iff := by
    intro name config hg
    rw [isRoot_iff hn hr, hg]
    simp
  trigger := by
    intro name config hg hne
    have hname := isReached_of_configured hn hreached hg
    obtain ⟨other, _, _, hother⟩ := exists_triggered hn h hname hne
    obtain ⟨master, hmaster⟩ := configured_of_isReached hn hr hother.isReached
    obtain ⟨y, z, hz⟩ := sequencerTrigger_of_hasTriggered hn h hother hmaster hg
    exact (sequencerTrigger_cases hz).imp_right And.left
  triggered hg hne := exists_triggered hn h (isReached_of_configured hn hreached hg) hne
  clock := by
    intro a b master slave edge hab ha hb ht
    obtain ⟨y, z, hz⟩ := sequencerTrigger_of_hasTriggered hn h hab ha hb
    rcases sequencerTrigger_cases hz with ⟨edge', ht'⟩ | ⟨_, pulse, hp⟩
    . rw [ht] at ht'
      contradiction
    . obtain ⟨_, high, low, hclicks⟩ := Clock.pulse_ok hp
      obtain ⟨_, htwo, hperiod, _, _⟩ := Clock.highLowClicks_eq_ok_iff.mp hclicks
      exact ⟨_, htwo, hperiod⟩
  read hl hcamera := isRead_of_get? hread hl hcamera

end Root

/--
A compilation that succeeds has compiled the root and come to everything.
-/
theorem exists_call_of_compileSequencers (hn : c.devices.names.Nodup)
    {compiled : Dictionary (Instruction α)} (hok : c.compileSequencers root = .ok compiled) :
    ∃ x p, c.call (c.rootCall root) = .ok (x, p) ∧ c.unreached root = [] ∧ c.unread root = []
      ∧ compiled = p.compiled := by
  obtain ⟨⟨x, p⟩, hcall, _⟩ := Outcome.bind_eq_ok_iff.mp hok
  have h : c.call (c.rootCall root) = .ok (x, p) := hcall
  rw [compileSequencers_of_call hn h] at hok
  split at hok
  . contradiction
  . next hreached =>
    split at hok
    . contradiction
    . next hread =>
      cases hok
      exact ⟨x, p, h, not_not.mp hreached, not_not.mp hread, rfl⟩

/--
A compilation that succeeds is complete, and one that fails after the root has been compiled names
what it has not come to.
-/
theorem isComplete_compileSequencers (hn : c.devices.names.Nodup)
    (hr : findRoot c.devices = .ok root) :
    (∀ compiled, c.compileSequencers root = .ok compiled → c.IsComplete root compiled)
      ∧ ∀ x p, c.call (c.rootCall root) = .ok (x, p) → c.compileSequencers root =
        if c.unreached root ≠ [] then .error (.unreachedSequencers root (c.unreached root))
        else if c.unread root ≠ [] then .error (.unusedLanes (c.unread root))
        else .ok p.compiled := by
  refine ⟨fun compiled hok => ?_, fun x p h => compileSequencers_of_call hn h⟩
  obtain ⟨x, p, h, hreached, hread, rfl⟩ := exists_call_of_compileSequencers hn hok
  exact isComplete_of_call hn h hr hreached hread

section Shots

attribute [local instance] Exact.zeroFunctions

/--
A sequencer that clocks another one, which outputs a lane.
-/
def clockedShot (master slave : TimeStep) (duration : Exact) : ShotContext Exact where
  lanes := ⟨[("gate", .digital [⟨.literal true, 1⟩])]⟩
  devices := ⟨[("master", .sequencer ⟨master, .software,
      [.digital "clock" (.deviceTrigger "slave" none)]⟩),
    ("slave", .sequencer ⟨slave, .externalClockOnChange .rising,
      [.digital "gate" (.laneValues "gate" none)]⟩)]⟩
  times := .ofDurations ["only"] [duration]
  scope := .empty

def twoMicroseconds : TimeStep := ⟨2000, by decide⟩

theorem isComplete_clockedShot : ∃ compiled,
    (clockedShot .microsecond twoMicroseconds (Number.ofDecimal 4 (-6))).compileSequencers "master"
        = .ok compiled
      ∧ (clockedShot .microsecond twoMicroseconds (Number.ofDecimal 4 (-6))).IsComplete "master"
        compiled := by
  have hok : ((clockedShot .microsecond twoMicroseconds
      (Number.ofDecimal 4 (-6))).compileSequencers "master").isOk = true := by
    unfold compileSequencers
    rw [← compileWithin_nil (by decide) (fun _ => throw .noRootSequencer) (Nat.lt_succ_self 2)]
    decide +kernel
  have h := Outcome.eq_ok_of_isOk hok .empty
  exact ⟨_, h, (isComplete_compileSequencers (by decide) (by rfl)).1 _ h⟩

end Shots

end Waveplan.ShotContext
