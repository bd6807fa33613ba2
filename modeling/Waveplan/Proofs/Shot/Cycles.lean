import Waveplan.Formula.Kernel
import Waveplan.Proofs.Exact
import Waveplan.Proofs.Shot.Depth
import Waveplan.Proofs.Shot.Progress

/-!
This module contains that a compilation comes to an end whatever sequencers trigger each other, and
that it reports the cycles of triggers that it evaluates, and no others.
-/

namespace Waveplan

open Outcome

/--
The error inside of all channels.
-/
def CompilationError.innermost {α : Type} : CompilationError α → CompilationError α
  | .channel _ _ _ error => error.innermost
  | error => error

open CompilationError (IsPlain IsTransparent)

theorem CompilationError.isTransparent_innermost {α : Type} {inner : CompilationError α}
    (hi : ¬inner.IsPlain) (ha : ∀ m n, inner ≠ .advanceTooLarge m n)
    (hd : ∀ m n, inner ≠ .delayTooLarge m n) :
    IsTransparent (fun e => e.innermost = inner) False where
  channel := Iff.rfl
  advance {m n} := iff_of_false (fun h => ha m n h.symm) id
  delay {m n} := iff_of_false (fun h => hd m n h.symm) id
  not_of_isPlain {e} he h := by
    have hinner : e.innermost = e := by
      cases e with
      | channel => exact he.elim
      | _ => rfl
    rw [← h, hinner] at hi
    exact hi he

theorem CompilationError.isTransparent_triggerCycle {α : Type} (device : String) :
    IsTransparent (fun e : CompilationError α => e.innermost = .triggerCycle device) False :=
  isTransparent_innermost id (by simp) (by simp)

theorem CompilationError.isTransparent_unsupportedTrigger {α : Type} (device : String)
    (trigger : Trigger) :
    IsTransparent (fun e : CompilationError α => e.innermost = .unsupportedTrigger device trigger)
      False :=
  isTransparent_innermost id (by simp) (by simp)

namespace ShotContext

variable {α : Type} [Number α] [Kernel α] {c : ShotContext α} {u v : Call α} {root a b : String}

theorem transGen_hasTriggered (hu : c.Leads (c.rootCall root) u)
    (h : Relation.TransGen c.Calls u v) :
    Relation.TransGen (c.HasTriggered root) u.name v.name := by
  induction h with
  | single h => exact .single ⟨_, _, hu, h, rfl, rfl⟩
  | tail huw h ih => exact ih.tail ⟨_, _, hu.trans huw.to_reflTransGen, h, rfl, rfl⟩

section Acyclic

/--
That a channel of a configured sequencer ends in the trigger of another one.
-/
def Edge (c : ShotContext α) (a b : String) : Prop :=
  ∃ config channel, (c.devices.get? a).bind Device.sequencer? = some config
    ∧ channel ∈ config.channels ∧ c.Triggers config.timeStep ⟨channel.output, channel.unit, 0⟩ b

theorem Turn.mem {pending : List String} {name : String} {p q : Progress α} {config : Sequencer α}
    {before after : Nat} {channel : Channel α}
    (h : c.Turn pending name p config before after channel q) : channel ∈ config.channels := by
  obtain ⟨earlier, later, _, hsplit, _⟩ := h.earlier
  simp [hsplit]

theorem Turn.edge {pending : List String} {name : String} {p q : Progress α} {config : Sequencer α}
    {before after : Nat} {channel : Channel α}
    (h : c.Turn pending name p config before after channel q)
    (hd : c.Triggers config.timeStep ⟨channel.output, channel.unit, 0⟩ b) : c.Edge name b :=
  ⟨config, channel, h.configured, h.mem, hd⟩

theorem Calls.edge (h : c.Calls u v) : c.Edge u.name v.name := by
  cases h with
  | trigger ht _ hd => exact ht.edge hd

theorem FirstRun.exists_calls_of_edge {config : Sequencer α} {x : Instruction α} {q : Progress α}
    (h : c.FirstRun u config x q) (he : c.Edge u.name b) : ∃ v, c.Calls u v ∧ v.name = b := by
  obtain ⟨other, channel, hother, hm, hd⟩ := he
  rw [h.configured] at hother
  cases hother
  obtain ⟨before, after, r, ht, ho⟩ := h.exists_turn_of_mem hm
  exact ⟨_, .trigger ht ho hd, rfl⟩

/--
Sequencers are compiled after all that they trigger, so no chain of triggers leads back to one.
-/
theorem acc_of_compiled {x : Instruction α} {q : Progress α} (h : c.call u = .ok (x, q))
    (hu : ∀ name, u.progress.compiled.contains name → Acc (fun b a => c.Edge a b) name) :
    ∀ name, q.compiled.contains name → Acc (fun b a => c.Edge a b) name := by
  apply call_preserves (I := fun q => ∀ name, q.compiled.contains name →
    Acc (fun b a => c.Edge a b) name) _ _ hu h
  . exact fun v r lane _ _ hr => hr
  . intro v config y r _ hrun _ hr name hname
    rw [Dictionary.contains, Progress.get?_compiled_finish] at hname
    split at hname
    . next he =>
      subst he
      refine ⟨_, fun b hb => ?_⟩
      obtain ⟨w, hvw, rfl⟩ := hrun.exists_calls_of_edge hb
      obtain ⟨_, slave, _, s, _, hw, hs, _⟩ := hrun.of_calls hvw
      apply hr
      apply hs.contains
      rw [Dictionary.contains, get?_compiled_of_call hw]
      rfl
    . exact hr name hname

theorem not_transGen_of_acc {β : Type} {R : β → β → Prop} {x : β} (h : Acc (fun b a => R a b) x) :
    ¬Relation.TransGen R x x := by
  induction h with
  | intro x _ ih =>
    intro hx
    -- the cycle also goes through the next one
    obtain ⟨y, hxy, hyx⟩ := Relation.TransGen.head'_iff.mp hx
    exact ih y hxy (.tail' hyx hxy)

end Acyclic

/--
That a compilation ends, and that what it says about cycles is right.
-/
structure ReportsCycles (c : ShotContext α) (root : String) : Prop where
  /-- However the recursion over sequencers in progress is cut off, it is not reached so far. -/
  terminates (otherwise : String → Compilation α (Instruction α)) {depth : Nat} :
    (sequencerNames c.devices).length < depth →
      c.compileWithin otherwise depth [] root = c.compileSequencer (sequencerNames c.devices) root
  /-- A cycle is reported exactly if a call of its sequencer has led to another one. -/
  triggerCycle_iff {device : String} :
    FailsWith (·.innermost = .triggerCycle device) (c.compileSequencers root)
      ↔ ∃ u v, c.Leads (c.rootCall root) u ∧ Relation.TransGen c.Calls u v ∧ u.name = device
        ∧ v.name = device
  /-- A sequencer that is in no cycle is not reported, wherever it is triggered from. -/
  transGen_of_triggerCycle {device : String} :
    FailsWith (·.innermost = .triggerCycle device) (c.compileSequencers root) →
      Relation.TransGen (c.HasTriggered root) device device
  acyclic {compiled : Dictionary (Instruction α)} :
    c.compileSequencers root = .ok compiled →
      ∀ device, ¬Relation.TransGen (c.HasTriggered root) device device
  /-- Whoever triggers the root closes a cycle. -/
  triggerCycle_root {name : String} : c.HasTriggered root name root →
    FailsWith (·.innermost = .triggerCycle root) (c.compileSequencers root)
  not_unsupportedTrigger_software {device : String} :
    ¬FailsWith (·.innermost = .unsupportedTrigger device .software) (c.compileSequencers root)

section Root

variable (hn : c.devices.names.Nodup)

include hn

theorem nodup_pending_of_leads (hu : c.Leads (c.rootCall root) u) : u.pending.Nodup :=
  Leads.nodup_pending hu (nodup_sequencerNames hn)

theorem failsWith_triggerCycle_iff {device : String} :
    FailsWith (·.innermost = .triggerCycle device) (c.compileSequencers root)
      ↔ ∃ u v, c.Leads (c.rootCall root) u ∧ Relation.TransGen c.Calls u v ∧ u.name = device
        ∧ v.name = device := by
  have hP := CompilationError.isTransparent_triggerCycle (α := α) device
  rw [failsWith_compileSequencers_iff hP]
  constructor
  . intro h
    rcases exists_cause (u := c.rootCall root) hP h
      with ⟨v, hv, hbusy, hd⟩ | ⟨_, _, _, _, _, _, _, hd⟩
    . cases hd
      -- what is configured and not pending is being compiled
      obtain ⟨config, hg⟩ := hbusy.configured
      have hm : v.name ∈ (c.rootCall root).pending :=
        (mem_sequencerNames_iff hn).mpr ⟨config, bind_sequencer?_eq_some_iff.mp hg⟩
      obtain ⟨u, hu, huv, hname⟩ := Leads.exists_of_not_pending hv hm hbusy.not_pending
      exact ⟨u, v, hu, huv, hname, rfl⟩
    . contradiction
  . rintro ⟨u, v, hu, huv, rfl, hname⟩
    have hbusy := isBusy_of_transGen huv (nodup_pending_of_leads hn hu) hname
    apply failsWith_of_leads hP (hu.trans huv.to_reflTransGen)
    apply (failsWith_compileSequencer_iff hP).mpr
    exact .inl ⟨hbusy, by rw [hname]; rfl⟩

theorem not_transGen_of_ok {compiled : Dictionary (Instruction α)}
    (h : c.compileSequencers root = .ok compiled) (device : String) :
    ¬Relation.TransGen (c.HasTriggered root) device device := by
  intro hcycle
  obtain ⟨⟨x, q⟩, hroot, _⟩ := Outcome.bind_eq_ok_iff.mp h
  have hroot : c.call (c.rootCall root) = .ok (x, q) := hroot
  obtain ⟨_, ⟨u, _, hu, _, hname, _⟩, _⟩ := Relation.TransGen.head'_iff.mp hcycle
  obtain ⟨y, r, hy, hr⟩ := exists_call_of_leads hroot (nodup_sequencerNames hn) hu
  have hacc := acc_of_compiled hroot (by intro name hempty; contradiction) device (by
    apply hr.contains
    rw [Dictionary.contains, ← hname, get?_compiled_of_call hy]
    rfl)
  have hedge : c.HasTriggered root ≤ c.Edge := by
    rintro a b ⟨u, v, _, huv, rfl, rfl⟩
    exact huv.edge
  exact not_transGen_of_acc hacc (Relation.TransGen.mono hedge _ _ hcycle)

theorem failsWith_triggerCycle_root {name : String} (h : c.HasTriggered root name root) :
    FailsWith (·.innermost = .triggerCycle root) (c.compileSequencers root) := by
  obtain ⟨u, v, hu, huv, _, hv⟩ := h
  apply (failsWith_triggerCycle_iff hn).mpr
  exact ⟨c.rootCall root, v, .refl, .tail' hu huv, rfl, hv⟩

theorem not_failsWith_unsupportedTrigger_software (hr : findRoot c.devices = .ok root)
    (device : String) :
    ¬FailsWith (·.innermost = .unsupportedTrigger device .software) (c.compileSequencers root) := by
  have hP := CompilationError.isTransparent_unsupportedTrigger (α := α) device .software
  rw [failsWith_compileSequencers_iff hP]
  intro h
  rcases exists_cause (u := c.rootCall root) hP h with
    ⟨_, _, _, hd⟩ | ⟨v, config, slave, q, hv, hg, hok, hd⟩
  . contradiction
  . -- only the root is started by the computer, and it is being compiled
    have hd : CompilationError.unsupportedTrigger v.name config.trigger
        = .unsupportedTrigger device .software := hd
    have ht := (CompilationError.unsupportedTrigger.inj hd).2
    have hname := (isRoot_iff hn hr).mpr ⟨config, hg, ht⟩
    have hbusy := isBusy_of_transGen hv (nodup_sequencerNames hn) hname
    exact hbusy.call_ne_ok hok

/--
Compilation ends on every graph of triggers, and reports its cycles.
-/
theorem reportsCycles (hr : findRoot c.devices = .ok root) : c.ReportsCycles root where
  terminates otherwise _ hd := by
    rw [compileWithin_nil hn otherwise hd]
  triggerCycle_iff := failsWith_triggerCycle_iff hn
  transGen_of_triggerCycle h := by
    obtain ⟨u, v, hu, huv, rfl, hname⟩ := (failsWith_triggerCycle_iff hn).mp h
    have hcycle := transGen_hasTriggered hu huv
    rwa [hname] at hcycle
  acyclic h := not_transGen_of_ok hn h
  triggerCycle_root h := failsWith_triggerCycle_root hn h
  not_unsupportedTrigger_software := not_failsWith_unsupportedTrigger_software hn hr _

end Root

section Shots

attribute [local instance] Exact.zeroFunctions

/--
A sequencer that outputs nothing but the trigger of a device.
-/
def triggering (trigger : Trigger) (device : String) : Sequencer Exact :=
  ⟨.microsecond, trigger, [.digital "start" (.deviceTrigger device none)]⟩

/--
Two sequencers that start each other.
-/
def cyclicShot : ShotContext Exact where
  lanes := .empty
  devices := ⟨[("master", .sequencer (triggering .software "slave")),
    ("slave", .sequencer (triggering (.externalStart .rising) "master"))]⟩
  times := .ofDurations ["only"] [Number.ofDecimal 4 (-6)]
  scope := .empty

theorem hasTriggered_cyclicShot : cyclicShot.HasTriggered "master" "slave" "master" := by
  have hends (device : String) :
      cyclicShot.Fits .microsecond 0 0 ⟨.deviceTrigger device none, none, 0⟩ := by
    apply fits_of_not_enters
    rintro y ⟨⟩
  have hmaster : cyclicShot.Turn ["master", "slave"] "master" {} (triggering .software "slave") 0 0
      (.digital "start" (.deviceTrigger "slave" none)) {} :=
    ⟨rfl, rfl, by decide, rfl, [], [], [], rfl, rfl⟩
  have hslave : cyclicShot.Turn ["slave"] "slave" {}
      (triggering (.externalStart .rising) "master") 0 0
      (.digital "start" (.deviceTrigger "master" none)) {} :=
    ⟨rfl, rfl, by decide, rfl, [], [], [], rfl, rfl⟩
  exact ⟨⟨["slave"], "slave", {}⟩, _,
    .single (.trigger hmaster (hends _) ⟨none, 0, _, .refl, rfl⟩),
    .trigger hslave (hends _) ⟨none, 0, _, .refl, rfl⟩, rfl, rfl⟩

theorem reportsCycles_cyclicShot : cyclicShot.ReportsCycles "master"
    ∧ FailsWith (·.innermost = .triggerCycle "master") (cyclicShot.compileSequencers "master") := by
  have hr : findRoot cyclicShot.devices = .ok "master" := rfl
  have h := reportsCycles (c := cyclicShot) (by decide) hr
  exact ⟨h, h.triggerCycle_root hasTriggered_cyclicShot⟩

end Shots

end ShotContext

end Waveplan
