import Waveplan.Config.Shot
import Waveplan.Proofs.Config.Device
import Waveplan.Proofs.Exact

/-!
This module contains that shots, and all that they are made of, are read as they were after they
have been written.
-/

namespace Waveplan

open Document

variable {α : Type}

namespace VariableDefinition

theorem rereads : Rereads (α := α) read? document := by
  intro d definition h
  have hvalid : VariableName.isValid definition.name.toList := by
    obtain ⟨values, _, h⟩ := Option.bind_eq_some_iff.mp h
    split at h
    . obtain ⟨name, _, h⟩ := Option.bind_eq_some_iff.mp h
      obtain ⟨value, _, h⟩ := Option.bind_eq_some_iff.mp h
      obtain ⟨hvalid, h⟩ := Option.ite_none_right_eq_some.mp h
      cases h
      exact hvalid
    . contradiction
  unfold read? document
  rw [outerFields?_record, fields?_record (by decide) (by simp)]
  exact if_pos hvalid

end VariableDefinition

namespace Dictionary

variable {β : Type} {read : Document α → Option β} {write : β → Document α}

theorem rereads (h : Rereads read write) : Rereads (read? read) (document write) := by
  intro d dictionary hd
  obtain ⟨entries, _, hd⟩ := Option.bind_eq_some_iff.mp hd
  obtain ⟨named, hnamed, hd⟩ := Option.bind_eq_some_iff.mp hd
  cases hd
  have hreread : ∀ entry ∈ (ofList named).entries, read (write entry.2) = some entry.2 := by
    intro entry hm
    have hmem := List.mem_reverse.mp (mem_of_lookup (mem_entries_ofList_iff.mp hm))
    obtain ⟨_, _, he⟩ := exists_mem_of_mapM hnamed hmem
    obtain ⟨_, _, he⟩ := Option.bind_eq_some_iff.mp he
    obtain ⟨_, hvalue, he⟩ := Option.bind_eq_some_iff.mp he
    cases he
    exact h _ _ hvalue
  refine Option.bind_eq_some_iff.mpr ⟨(ofList named).entries, ?_, ?_⟩
  . rw [List.map_map]
    refine mapM_map_eq_some fun entry hm => ?_
    refine Option.bind_eq_some_iff.mpr ⟨_, rfl, ?_⟩
    exact Option.bind_eq_some_iff.mpr ⟨_, hreread entry hm, rfl⟩
  . exact congrArg some (ofList_eq_of_pairwise (pairwise_names_ofList named))

end Dictionary

namespace Shot

variable [Number α]

theorem rereads : Rereads (α := α) read? document := by
  intro d s h
  obtain ⟨values, hvalues, h⟩ := Option.bind_eq_some_iff.mp h
  split at h
  . next stepList definitionList laneMap deviceMap =>
    obtain ⟨_, _, h⟩ := Option.bind_eq_some_iff.mp h
    obtain ⟨steps, hsteps, h⟩ := Option.bind_eq_some_iff.mp h
    obtain ⟨_, _, h⟩ := Option.bind_eq_some_iff.mp h
    obtain ⟨definitions, hdefinitions, h⟩ := Option.bind_eq_some_iff.mp h
    obtain ⟨lanes, hlanes, h⟩ := Option.bind_eq_some_iff.mp h
    obtain ⟨devices, hdevices, h⟩ := Option.bind_eq_some_iff.mp h
    cases h
    have hsteps : (steps.map Step.document).mapM (Step.read? (α := α)) = some steps :=
      mapM_map_eq_some fun step _ => step.read?_document
    have hdefinitions : (definitions.map VariableDefinition.document).mapM
        (VariableDefinition.read? (α := α)) = some definitions := by
      refine mapM_map_eq_some fun definition hm => ?_
      obtain ⟨d, _, hd⟩ := exists_mem_of_mapM hdefinitions hm
      exact VariableDefinition.rereads d definition hd
    have hlanes : Dictionary.read? (Lane.readOuter? (α := α) nesting)
        (lanes.document Lane.document) = some lanes := by
      cases laneMap with
      | none =>
        cases hlanes
        rfl
      | some d => exact Dictionary.rereads (Lane.rereads_readOuter? nesting) _ _ hlanes
    have hdevices : Dictionary.read? (Device.readOuter? (α := α) nesting)
        (devices.document Device.document) = some devices :=
      Dictionary.rereads (Device.rereads_readOuter? nesting) _ _ hdevices
    unfold read? document
    rw [outerFields?_record, fields?_record (by decide) (by simp)]
    refine Option.bind_eq_some_iff.mpr ⟨_, rfl, ?_⟩
    refine Option.bind_eq_some_iff.mpr ⟨_, rfl, ?_⟩
    refine Option.bind_eq_some_iff.mpr ⟨_, hsteps, ?_⟩
    refine Option.bind_eq_some_iff.mpr ⟨_, rfl, ?_⟩
    refine Option.bind_eq_some_iff.mpr ⟨_, hdefinitions, ?_⟩
    refine Option.bind_eq_some_iff.mpr ⟨_, hlanes, ?_⟩
    exact Option.bind_eq_some_iff.mpr ⟨_, hdevices, rfl⟩
  . contradiction

end Shot

section Configuration

variable [Number α]

/--
Configurations survive being written and read: whole shots, and each part of them that is read for
itself, at every nesting of outputs and under as many lists and maps as before.
-/
theorem rereads_configuration :
    Rereads (Shot.read? (α := α)) Shot.document
      ∧ (∀ outer, Rereads (Device.readOuter? (α := α) outer) Device.document
        ∧ Rereads (Channel.readOuter? (α := α) outer) Channel.document
        ∧ Rereads (ChannelOutput.readOuter? (α := α) outer) ChannelOutput.document
        ∧ Rereads (Lane.readOuter? (α := α) outer) Lane.document
        ∧ Rereads (Trigger.readOuter? (α := α) outer) Trigger.document)
      ∧ Rereads (Step.read? (α := α)) Step.document
      ∧ Rereads (PhysicalUnit.readOuter? (α := α)) PhysicalUnit.document := by
  refine ⟨Shot.rereads, fun outer => ⟨?device, ?channel, ?output, ?lane, ?trigger⟩, ?step, ?unit⟩
  case device => exact Device.rereads_readOuter? outer
  case channel => exact Channel.rereads_readOuter? outer
  case output => exact ChannelOutput.rereads_readOuter? outer
  case lane => exact Lane.rereads_readOuter? outer
  case trigger => exact Trigger.rereads_readOuter? outer
  case step => exact fun _ step _ => step.read?_document
  case unit => exact PhysicalUnit.rereads_readOuter?

/--
A shot with its lanes and devices out of order, a ramp with blanks around it, a step whose duration
is a number, a device as a list, and a default inside a calibrated output.
-/
def scatteredDocument : Document Exact :=
  .record [
    ("devices", .record [
      ("fpga", .list [.text "sequencer", .nat 1000,
        .record [("trigger_type", .text "external_clock")],
        .list [.record [("type", .text "analog"), ("description", .text "coil"),
          ("output", .record [("type", .text "delay"), ("delay", .text "1 us"),
            ("input", .record [("type", .text "calibrated_analog_mapping"),
              ("input", .record [("type", .text "device_trigger"), ("device_name", .text "camera"),
                ("default", .record [("type", .text "lane_values"), ("lane", .text "power")])]),
              ("measured_data_points", .list [.list [.nat 0, .nat 1]])])])]]]),
      ("camera", .record [("type", .text "camera")])]),
    ("lanes", .record [
      ("power", .record [("type", .text "analog"), ("blocks", .list [
        .record [("value", .text "1 V"), ("span", .nat 1)],
        .record [("value", .text " ramp "), ("span", .nat 1)]])]),
      ("gate", .record [("type", .text "digital"), ("blocks", .list [
        .record [("value", .bool true), ("span", .nat 2)]])])]),
    ("steps", .list [.record [("name", .text "load"), ("duration", .text "10 us")],
      .list [.text "wait", .nat 0]])]

theorem rereads_configuration_scatteredDocument :
    ∃ s, Shot.read? scatteredDocument = some s ∧ Shot.read? s.document = some s := by
  have h : (Shot.read? scatteredDocument).isSome := by decide
  obtain ⟨s, hs⟩ := Option.isSome_iff_exists.mp h
  exact ⟨s, hs, rereads_configuration.1 _ s hs⟩

end Configuration

end Waveplan
