import Waveplan.Proofs.Device
import Waveplan.Proofs.Shot.Compilation

/-!
This module contains how deep the recursion of a compilation goes: no deeper than there are
sequencers, since a sequencer is not called again while it is being compiled.
-/

namespace Waveplan.ShotContext

variable {α : Type} [Number α] [Kernel α] {c : ShotContext α}

/--
The recursion over the sequencers that are being compiled, without a measure by which it ends: at
some depth it is cut off, and goes on with anything instead.
-/
def compileWithin (c : ShotContext α) (otherwise : String → Compilation α (Instruction α)) :
    Nat → List String → String → Compilation α (Instruction α)
  | 0, _, name => otherwise name
  | depth + 1, inProgress, name => do
    match (← get).compiled.get? name with
    | some x => pure x
    | none =>
      match (c.devices.get? name).bind Device.sequencer? with
      | none => throw (.unknownDevice name "sequencer")
      | some config =>
        if name ∈ inProgress then
          throw (.triggerCycle name)
        else
          let x ← c.channels (c.compileWithin otherwise depth (name :: inProgress)) name config
          modify fun progress => { progress with compiled := progress.compiled.insert name x }
          pure x

/--
The sequencers that are not pending are those that are being compiled, so the recursion over the
latter is not cut off below as many calls as there are sequencers.
-/
theorem compileWithin_eq (otherwise : String → Compilation α (Instruction α)) {depth : Nat}
    {pending inProgress : List String} (hn : pending.Nodup) (hd : pending.length < depth)
    (hp : ∀ name, ((c.devices.get? name).bind Device.sequencer?).isSome →
      (name ∈ pending ↔ name ∉ inProgress)) :
    c.compileWithin otherwise depth inProgress = c.compileSequencer pending := by
  induction depth generalizing pending inProgress with
  | zero => omega
  | succ depth ih =>
    funext name p
    rw [compileWithin, compileSequencer, Compilation.get_bind, Compilation.get_bind]
    cases p.compiled.get? name with
    | some x => rfl
    | none =>
      cases hc : (c.devices.get? name).bind Device.sequencer? with
      | none => rfl
      | some config =>
        have hname := hp name (by rw [hc]; rfl)
        by_cases hmem : name ∈ pending
        . have hl := length_erase_lt hmem
          have hrest : c.compileWithin otherwise depth (name :: inProgress)
              = c.compileSequencer (pending.erase name) := by
            apply ih (hn.erase _) (by omega)
            intro other hother
            rw [hn.mem_erase_iff, List.mem_cons, not_or, hp other hother]
          dsimp only
          rw [if_neg (hname.mp hmem), dif_pos hmem, hrest]
        . dsimp only
          rw [if_pos (not_not.mp (hname.not.mp hmem)), dif_neg hmem]

theorem compileWithin_nil (hn : c.devices.names.Nodup)
    (otherwise : String → Compilation α (Instruction α)) {depth : Nat}
    (hd : (sequencerNames c.devices).length < depth) :
    c.compileWithin otherwise depth [] = c.compileSequencer (sequencerNames c.devices) := by
  apply compileWithin_eq otherwise (nodup_sequencerNames hn) hd
  intro name hname
  obtain ⟨config, hconfig⟩ := Option.isSome_iff_exists.mp hname
  simp only [List.not_mem_nil, not_false_eq_true, iff_true]
  exact (mem_sequencerNames_iff hn).mpr ⟨config, bind_sequencer?_eq_some_iff.mp hconfig⟩

end Waveplan.ShotContext
