import Waveplan.Proofs.Shot.Turns

/-!
This module contains the calls of sequencers during a compilation. A sequencer is called by the
first one or by a trigger that a channel of another sequencer outputs, so that the calls form a
tree, and whatever fails inside of a channel fails first in one of its calls.
-/

namespace Waveplan.ShotContext

open Outcome

open CompilationError (IsPlain IsTransparent)

variable {α : Type} [Number α] [Kernel α] {c : ShotContext α}

/--
The compilation of a sequencer while some sequencers are pending, after some progress.
-/
structure Call (α : Type) where
  pending : List String
  name : String
  progress : Progress α

def call (c : ShotContext α) (u : Call α) :
    Except (CompilationError α) (Instruction α × Progress α) :=
  c.compileSequencer u.pending u.name u.progress

omit [Number α] [Kernel α] in
/--
The call that a compilation begins with.
-/
def rootCall (c : ShotContext α) (root : String) : Call α :=
  ⟨sequencerNames c.devices, root, {}⟩

/--
That a sequencer is called for a trigger that is evaluated during another call.
-/
inductive Calls (c : ShotContext α) : Call α → Call α → Prop where
  | trigger {u : Call α} {config : Sequencer α} {before after : Nat} {channel : Channel α}
      {q : Progress α} {device : String} :
      c.Turn u.pending u.name u.progress config before after channel q →
      c.Fits config.timeStep before after ⟨channel.output, channel.unit, 0⟩ →
      c.Triggers config.timeStep ⟨channel.output, channel.unit, 0⟩ device →
      c.Calls u ⟨u.pending.erase u.name, device, q⟩

variable (c) in
/--
The calls that are made in the course of a call, and the call itself.
-/
abbrev Leads : Call α → Call α → Prop := Relation.ReflTransGen c.Calls

/--
That a trigger of the sequencer `b` is evaluated while the sequencer `a` is compiled.
-/
def HasTriggered (c : ShotContext α) (root a b : String) : Prop :=
  ∃ u v, c.Leads (c.rootCall root) u ∧ c.Calls u v ∧ u.name = a ∧ v.name = b

variable {u v w : Call α}

theorem Calls.isPending (h : c.Calls u v) : u.name ∈ u.pending := by
  cases h with
  | trigger ht _ _ => exact ht.isPending

theorem Calls.pending (h : c.Calls u v) : v.pending = u.pending.erase u.name := by
  cases h with
  | trigger _ _ _ => rfl

theorem Calls.configured (h : c.Calls u v) :
    ∃ config, c.devices.get? v.name = some (.sequencer config) := by
  cases h with
  | trigger _ _ hd =>
    obtain ⟨_, _, config, _, hg⟩ := hd
    exact ⟨config, hg⟩

theorem Calls.length_pending_lt (h : c.Calls u v) : v.pending.length < u.pending.length := by
  rw [h.pending]
  exact length_erase_lt h.isPending

/--
Calls come to an end, whatever triggers the channels output.
-/
theorem wellFounded_calls (c : ShotContext α) : WellFounded fun v u => c.Calls u v :=
  Subrelation.wf (fun h => Calls.length_pending_lt h)
    (measure fun u : Call α => u.pending.length).wf

theorem Leads.pending_subset (h : c.Leads u v) : v.pending ⊆ u.pending := by
  induction h with
  | refl => exact List.Subset.refl _
  | tail _ h ih =>
    rw [h.pending]
    exact List.Subset.trans List.erase_subset ih

theorem Leads.nodup_pending (h : c.Leads u v) (hu : u.pending.Nodup) : v.pending.Nodup := by
  induction h with
  | refl => exact hu
  | tail _ h ih =>
    rw [h.pending]
    exact ih.erase _

/--
A sequencer that is no longer pending is one that the call is made for, however indirectly.
-/
theorem Leads.exists_of_not_pending (h : c.Leads u v) {name : String} (hu : name ∈ u.pending)
    (hv : name ∉ v.pending) : ∃ w, c.Leads u w ∧ Relation.TransGen c.Calls w v ∧ w.name = name := by
  induction h with
  | refl => exact absurd hu hv
  | @tail w v huw hwv ih =>
    by_cases hw : name ∈ w.pending
    . refine ⟨w, huw, .single hwv, ?_⟩
      by_contra hne
      rw [hwv.pending] at hv
      exact hv ((List.mem_erase_of_ne fun h => hne h.symm).mpr hw)
    . obtain ⟨x, hux, hxw, hx⟩ := ih hw
      exact ⟨x, hux, hxw.tail hwv, hx⟩

theorem Leads.not_pending (h : Relation.TransGen c.Calls u v) (hu : u.pending.Nodup) :
    u.name ∉ v.pending := by
  obtain ⟨w, huw, hwv⟩ := Relation.TransGen.head'_iff.mp h
  intro hm
  have hm := Leads.pending_subset hwv hm
  rw [huw.pending] at hm
  exact hu.not_mem_erase hm

section Failure

variable {P : CompilationError α → Prop} {room : Prop}

theorem failsWith_of_calls (hP : IsTransparent P room) (h : c.Calls u v)
    (hv : FailsWith P (c.call v)) : FailsWith P (c.call u) := by
  cases h with
  | trigger ht hf hd =>
    obtain ⟨_, _, config, _, hg⟩ := id hd
    apply (failsWith_compileSequencer_iff hP).mpr
    refine .inr ⟨_, _, _, _, _, ht, (ht.failsWith_iff hP).mpr (.inr ⟨hf, _, hd, ?_⟩)⟩
    exact (failsWith_deviceTrigger_iff hg).mpr (.inl hv)

theorem failsWith_of_leads (hP : IsTransparent P room) (h : c.Leads u v)
    (hv : FailsWith P (c.call v)) : FailsWith P (c.call u) := by
  induction h using Relation.ReflTransGen.head_induction_on with
  | refl => exact hv
  | head h _ ih => exact failsWith_of_calls hP h ih

theorem exists_calls_of_failsWith (hP : IsTransparent P False) (h : FailsWith P (c.call u)) :
    (c.IsBusy u.pending u.name u.progress ∧ P (.triggerCycle u.name))
      ∨ ∃ v, c.Calls u v ∧ (FailsWith P (c.call v) ∨ ∃ config slave q,
        c.devices.get? v.name = some (.sequencer config) ∧ c.call v = .ok (slave, q)
          ∧ P (.unsupportedTrigger v.name config.trigger)) := by
  rcases (failsWith_compileSequencer_iff hP).mp h
    with h | ⟨config, before, after, channel, q, ht, h⟩
  . exact .inl h
  . rcases (ht.failsWith_iff hP).mp h with ⟨hroom, _⟩ | ⟨hf, device, hd, h⟩
    . exact hroom.elim
    . obtain ⟨_, _, config', _, hg⟩ := id hd
      refine .inr ⟨_, .trigger ht hf hd, ?_⟩
      rcases (failsWith_deviceTrigger_iff hg).mp h with h | ⟨slave, r, hs, h⟩
      . exact .inl h
      . exact .inr ⟨config', slave, r, hg, hs,
          failsWith_sequencerTrigger (fun _ he => hP.not_of_isPlain he.isPlain) h⟩

/--
What fails in the course of a call fails first because a sequencer is called while it is compiled,
or because a sequencer that has been compiled cannot be triggered.
-/
theorem exists_cause (hP : IsTransparent P False) (h : FailsWith P (c.call u)) :
    (∃ v, c.Leads u v ∧ c.IsBusy v.pending v.name v.progress ∧ P (.triggerCycle v.name))
      ∨ ∃ v config slave q, Relation.TransGen c.Calls u v
        ∧ c.devices.get? v.name = some (.sequencer config) ∧ c.call v = .ok (slave, q)
        ∧ P (.unsupportedTrigger v.name config.trigger) := by
  induction u using (wellFounded_calls c).induction with
  | _ u ih =>
    rcases exists_calls_of_failsWith hP h with h | ⟨v, huv, hv | ⟨config, slave, q, h⟩⟩
    . exact .inl ⟨u, .refl, h⟩
    . rcases ih v huv hv with ⟨w, hvw, h⟩ | ⟨w, config, slave, q, hvw, h⟩
      . exact .inl ⟨w, .head huv hvw, h⟩
      . exact .inr ⟨w, config, slave, q, .head huv hvw, h⟩
    . exact .inr ⟨v, config, slave, q, .single huv, h⟩

end Failure

end Waveplan.ShotContext
