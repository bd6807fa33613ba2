import Waveplan.Proofs.Dictionary
import Waveplan.Shot.Sequencers

/-!
This module contains which sequencers are configured, and that the root is the only one of them that
the computer starts.
-/

namespace Waveplan

variable {α : Type} {devices : Dictionary (Device α)} {name root : String} {config : Sequencer α}

theorem sequencer?_eq_some_iff {device : Device α} :
    device.sequencer? = some config ↔ device = .sequencer config := by
  cases device <;> simp [Device.sequencer?]

theorem bind_sequencer?_eq_some_iff :
    (devices.get? name).bind Device.sequencer? = some config
      ↔ devices.get? name = some (.sequencer config) := by
  simp only [Option.bind_eq_some_iff, sequencer?_eq_some_iff]
  simp

theorem mem_sequencerNames_iff (hn : devices.names.Nodup) :
    name ∈ ShotContext.sequencerNames devices
      ↔ ∃ config, devices.get? name = some (.sequencer config) := by
  simp only [ShotContext.sequencerNames, List.mem_map, List.mem_filter, Option.isSome_iff_exists,
    sequencer?_eq_some_iff, Dictionary.get?_eq_some_iff hn]
  constructor
  . rintro ⟨⟨_, device⟩, ⟨h, config, rfl⟩, rfl⟩
    exact ⟨config, h⟩
  . rintro ⟨config, h⟩
    exact ⟨_, ⟨h, config, rfl⟩, rfl⟩

theorem nodup_sequencerNames (hn : devices.names.Nodup) :
    (ShotContext.sequencerNames devices).Nodup :=
  hn.sublist (List.filter_sublist.map _)

theorem mem_roots_iff (hn : devices.names.Nodup) :
    name ∈ (devices.entries.filter fun (_, device) =>
        device.sequencer?.any fun config => config.trigger.isSoftware).map Prod.fst
      ↔ ∃ config, devices.get? name = some (.sequencer config) ∧ config.trigger = .software := by
  have hs (t : Trigger) : t.isSoftware = true ↔ t = .software := by
    cases t <;> simp [Trigger.isSoftware]
  simp only [List.mem_map, List.mem_filter, Option.any_eq_true, sequencer?_eq_some_iff, hs,
    Dictionary.get?_eq_some_iff hn]
  constructor
  . rintro ⟨⟨_, device⟩, ⟨h, config, rfl, ht⟩, rfl⟩
    exact ⟨config, h, ht⟩
  . rintro ⟨config, h, ht⟩
    exact ⟨_, ⟨h, config, rfl, ht⟩, rfl⟩

/--
The root is the sequencer that the computer starts.
-/
theorem isRoot_iff (hn : devices.names.Nodup) (hr : findRoot devices = .ok root) :
    name = root
      ↔ ∃ config, devices.get? name = some (.sequencer config) ∧ config.trigger = .software := by
  rw [← mem_roots_iff hn]
  unfold findRoot at hr
  dsimp only at hr
  split at hr
  . contradiction
  . next h =>
    cases hr
    rw [h, List.mem_singleton]
  . contradiction

end Waveplan
