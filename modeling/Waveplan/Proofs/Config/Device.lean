import Waveplan.Proofs.Config.Output

/-!
This module contains that triggers, channels and devices are read as they were after they have been
written.
-/

namespace Waveplan

open Document

variable {α : Type}

namespace Edge

theorem read?_document (edge : Edge) : read? (edge.document : Document α) = some edge := by
  cases edge <;> rfl

end Edge

namespace Trigger

theorem read?_document (trigger : Trigger) :
    read? (trigger.document : Document α) = some trigger := by
  have hvariant : (trigger.document : Document α).variant? "trigger_type" kinds
      = some (trigger.kind, _) :=
    variant?_record (by cases trigger <;> simp [edge?])
      (by cases trigger <;> simp [Trigger.kind, kinds])
  have hedge (edge : Edge) : readEdge? (.record [("edge", (edge.document : Document α))])
      = some edge := by
    unfold readEdge?
    rw [fields?_record (by decide) (by simp)]
    exact Edge.read?_document (α := α) edge
  unfold read?
  rw [hvariant]
  cases trigger with
  | software => rfl
  | externalStart edge => exact congrArg (Option.map _) (hedge edge)
  | externalClock edge => exact congrArg (Option.map _) (hedge edge)
  | externalClockOnChange edge => exact congrArg (Option.map _) (hedge edge)

theorem faithful : Faithful (α := α) read? document where
  isTyped trigger := by cases trigger <;> rfl
  depth_le {d trigger} h := by
    obtain ⟨_, hd, _⟩ := Option.bind_eq_some_iff.mp h
    have hpos := depth_pos_of_variant? hd
    cases trigger <;> exact hpos
  reread {_ trigger} _ := trigger.read?_document

theorem rereads_readOuter? (outer : Nat) : Rereads (readOuter? (α := α) outer) document := by
  refine faithful.rereads_settled (fun trigger => ⟨trigger.kind, _, ?_, rfl⟩) outer
  cases trigger <;> simp [edge?]

end Trigger

namespace TimeStep

theorem ofNs?_eq_some_iff {ns : UInt64} {step : TimeStep} :
    ofNs? ns = some step ↔ step.ns = ns := by
  unfold ofNs?
  split
  . constructor
    . rintro h
      cases h
      rfl
    . rintro rfl
      rfl
  . next h =>
    simp only [false_iff, reduceCtorEq]
    rintro rfl
    exact h step.ns_ne_zero

theorem read?_document (step : TimeStep) : read? (step.document : Document α) = some step :=
  Option.bind_eq_some_iff.mpr ⟨_, word?_nat step.ns, ofNs?_eq_some_iff.mpr rfl⟩

theorem faithful : Faithful (α := α) read? document where
  isTyped step := isTyped_nat step.ns
  depth_le _ := Nat.zero_le _
  reread {_ step} _ := step.read?_document

end TimeStep

variable [Number α]

namespace Channel

theorem isTyped_document (channel : Channel α) : channel.document.isTyped := by
  have hunit := (PhysicalUnit.faithful (α := α)).optional fun _ => rfl
  cases channel with
  | digital description output => simp [document, isTyped_record_iff, output.isTyped_document]
  | analog description output unit =>
    simp [document, isTyped_record_iff, output.isTyped_document, hunit.isTyped]

theorem depth_document_le {d : Document α} {channel : Channel α} (h : read? d = some channel) :
    channel.document.depth ≤ d.depth := by
  obtain ⟨⟨kind, content⟩, hd, h⟩ := Option.bind_eq_some_iff.mp h
  refine Nat.le_trans ?_ (depth_le_of_variant? hd)
  split at h
  . next he =>
    cases he
    obtain ⟨values, h, hpos, hdepths⟩ := exists_fields_of_bind h
    split at h
    . next description output =>
      obtain ⟨name, _, h⟩ := Option.bind_eq_some_iff.mp h
      obtain ⟨o, houtput, h⟩ := Option.bind_eq_some_iff.mp h
      cases h
      have houtput := Nat.lt_of_le_of_lt (ChannelOutput.depth_document_le houtput)
        (hdepths (some output) (by simp))
      simp [document, depth_record_le_iff, hpos, houtput]
    . contradiction
  . next he =>
    cases he
    obtain ⟨values, h, hpos, hdepths⟩ := exists_fields_of_bind h
    split at h
    . next description output unit =>
      obtain ⟨name, _, h⟩ := Option.bind_eq_some_iff.mp h
      obtain ⟨o, houtput, h⟩ := Option.bind_eq_some_iff.mp h
      obtain ⟨unit, _, h⟩ := Option.bind_eq_some_iff.mp h
      cases h
      have houtput := Nat.lt_of_le_of_lt (ChannelOutput.depth_document_le houtput)
        (hdepths (some output) (by simp))
      simp [document, depth_record_le_iff, hpos, houtput]
    . contradiction
  . contradiction

theorem read?_document (channel : Channel α) : read? channel.document = some channel := by
  cases channel with
  | digital description output =>
    rw [document, read?]
    refine Option.bind_eq_some_iff.mpr ⟨_, variant?_record (by simp) (by decide), ?_⟩
    refine Option.bind_eq_some_iff.mpr ⟨_, fields?_record (by decide) (by simp), ?_⟩
    refine Option.bind_eq_some_iff.mpr ⟨_, rfl, ?_⟩
    exact Option.bind_eq_some_iff.mpr ⟨_, output.read?_document, rfl⟩
  | analog description output unit =>
    rw [document, read?]
    refine Option.bind_eq_some_iff.mpr ⟨_, variant?_record (by simp) (by decide), ?_⟩
    refine Option.bind_eq_some_iff.mpr ⟨_, fields?_record (by decide) (by simp), ?_⟩
    refine Option.bind_eq_some_iff.mpr ⟨_, rfl, ?_⟩
    refine Option.bind_eq_some_iff.mpr ⟨_, output.read?_document, ?_⟩
    exact Option.bind_eq_some_iff.mpr ⟨_, PhysicalUnit.optional?_ofOption_document unit, rfl⟩

theorem faithful : Faithful (α := α) read? document where
  isTyped := isTyped_document
  depth_le := depth_document_le
  reread {_ channel} _ := channel.read?_document

theorem rereads_readOuter? (outer : Nat) : Rereads (readOuter? (α := α) outer) document :=
  faithful.rereads_settled (fun channel => by cases channel <;> exact ⟨_, _, by simp, rfl⟩) outer

end Channel

namespace Device

theorem isTyped_document (device : Device α) : device.document.isTyped := by
  cases device with
  | sequencer config =>
    have hchannels := (Channel.faithful (α := α)).list.isTyped config.channels
    simp [document, isTyped_record_iff, TimeStep.faithful.isTyped, Trigger.faithful.isTyped,
      hchannels]
  | camera => rfl
  | other => rfl

theorem depth_document_le {d : Document α} {device : Device α} (h : read? d = some device) :
    device.document.depth ≤ d.depth := by
  obtain ⟨⟨kind, content⟩, hd, h⟩ := Option.bind_eq_some_iff.mp h
  have hpos := depth_pos_of_variant? hd
  have hle := depth_le_of_variant? hd
  split at h
  . next he =>
    cases he
    refine Nat.le_trans ?_ hle
    obtain ⟨values, h, hpos, hdepths⟩ := exists_fields_of_bind h
    split at h
    . next timeStep trigger channels =>
      obtain ⟨step, hstep, h⟩ := Option.bind_eq_some_iff.mp h
      obtain ⟨start, hstart, h⟩ := Option.bind_eq_some_iff.mp h
      obtain ⟨items, hitems, h⟩ := Option.bind_eq_some_iff.mp h
      obtain ⟨read, hread, h⟩ := Option.bind_eq_some_iff.mp h
      cases h
      have hchannels := Channel.faithful.list.depth_le
        (Option.bind_eq_some_iff.mpr ⟨items, hitems, hread⟩)
      have hstep := Nat.lt_of_le_of_lt (TimeStep.faithful.depth_le hstep)
        (hdepths (some timeStep) (by simp))
      have hstart := Nat.lt_of_le_of_lt (Trigger.faithful.depth_le hstart)
        (hdepths (some trigger) (by simp))
      have hchannels := Nat.lt_of_le_of_lt hchannels (hdepths (some channels) (by simp))
      simp [document, depth_record_le_iff, hpos, hstep, hstart, hchannels]
    . contradiction
  . next he =>
    cases he
    obtain ⟨_, h⟩ := Option.ite_none_right_eq_some.mp h
    cases h
    exact hpos
  . next he =>
    cases he
    obtain ⟨_, h⟩ := Option.ite_none_right_eq_some.mp h
    cases h
    exact hpos
  . contradiction

theorem read?_document (device : Device α) : read? device.document = some device := by
  cases device with
  | sequencer config =>
    rw [document, read?]
    refine Option.bind_eq_some_iff.mpr ⟨_, variant?_record (by simp) (by decide), ?_⟩
    refine Option.bind_eq_some_iff.mpr ⟨_, fields?_record (by decide) (by simp), ?_⟩
    refine Option.bind_eq_some_iff.mpr ⟨_, TimeStep.read?_document config.timeStep, ?_⟩
    refine Option.bind_eq_some_iff.mpr ⟨_, config.trigger.read?_document, ?_⟩
    refine Option.bind_eq_some_iff.mpr ⟨_, rfl, ?_⟩
    refine Option.bind_eq_some_iff.mpr ⟨_, mapM_map_eq_some fun channel _ => ?_, rfl⟩
    exact channel.read?_document
  | camera => rfl
  | other => rfl

theorem faithful : Faithful (α := α) read? document where
  isTyped := isTyped_document
  depth_le := depth_document_le
  reread {_ device} _ := device.read?_document

theorem rereads_readOuter? (outer : Nat) : Rereads (readOuter? (α := α) outer) document :=
  faithful.rereads_settled (fun device => by cases device <;> exact ⟨_, _, by simp, rfl⟩) outer

end Device

end Waveplan
