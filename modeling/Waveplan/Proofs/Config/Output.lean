import Waveplan.Config.Device
import Waveplan.Proofs.Config.Lane

/-!
This module contains that units and channel outputs are read as they were after they have been
written, at every nesting. Outputs are read with a limit on their nesting, which their documents
never reach.
-/

namespace Waveplan

open Document

variable {α : Type}

namespace PhysicalUnit

theorem faithful : Faithful (α := α) read? document where
  isTyped _ := rfl
  depth_le _ := Nat.zero_le _
  reread {_ unit} _ := ofSymbol?_symbol unit

theorem rereads_readOuter? : Rereads (readOuter? (α := α)) document :=
  fun _ unit _ => ofSymbol?_symbol unit

@[simp]
theorem depth_ofOption_document (unit : Option PhysicalUnit) :
    (ofOption document unit : Document α).depth = 0 := by
  cases unit <;> rfl

theorem optional?_ofOption_document (unit : Option PhysicalUnit) :
    optional? read? (some (ofOption document unit : Document α)) = some unit := by
  cases unit with
  | none => rfl
  | some unit => exact congrArg (Option.map some) (ofSymbol?_symbol unit)

end PhysicalUnit

variable [Number α]

theorem faithful_readPoint? :
    Faithful readPoint? fun p : α × α => .list [.float p.1, .float p.2] := by
  refine Faithful.intro (fun _ => rfl) fun d p h => ?_
  unfold readPoint? at h
  split at h
  . obtain ⟨x, hx, h⟩ := Option.bind_eq_some_iff.mp h
    obtain ⟨y, hy, h⟩ := Option.bind_eq_some_iff.mp h
    cases h
    exact ⟨Nat.succ_le_succ (Nat.zero_le _), rfl⟩
  . contradiction

namespace ChannelOutput

theorem isTyped_document (o : ChannelOutput α) : o.document.isTyped := by
  have hunit := (PhysicalUnit.faithful (α := α)).optional fun _ => rfl
  induction o using ChannelOutput.induct with
  | constant value => rfl
  | laneValues lane default => cases default <;> rfl
  | deviceTrigger device default ih =>
    cases default with
    | none => rfl
    | some other => simp [document, isTyped_record_iff, ih other rfl]
  | calibrated input inputUnit outputUnit points ih =>
    have hpoints := (faithful_readPoint? (α := α)).list.isTyped points
    simp [document, isTyped_record_iff, ih, hunit.isTyped, hpoints]
  | advance input shift ih => simp [document, isTyped_record_iff, ih]
  | delay input shift ih => simp [document, isTyped_record_iff, ih]

theorem exists_document_eq (o : ChannelOutput α) :
    ∃ kind fields, "type" ∉ List.map Prod.fst fields
      ∧ o.document = record (("type", Document.text kind) :: fields) := by
  cases o with
  | laneValues lane default => cases default <;> exact ⟨_, _, by simp, rfl⟩
  | deviceTrigger device default => cases default <;> exact ⟨_, _, by simp, rfl⟩
  | _ => exact ⟨_, _, by simp, rfl⟩

theorem isNull_document (o : ChannelOutput α) : o.document.isNull = false := by
  obtain ⟨kind, fields, _, h⟩ := exists_document_eq o
  rw [h]
  rfl

/--
The nesting of an output is below the depth of its document, which is therefore read completely.
-/
theorem readWithin?_document (o : ChannelOutput α) {levels : Nat} (h : o.document.depth ≤ levels) :
    readWithin? levels o.document = some o := by
  -- an output inside another is in one of its fields, so one level less is left for it
  induction o using ChannelOutput.induct generalizing levels with
  | constant value =>
    obtain ⟨levels, rfl, -⟩ := exists_succ_of_depth_record_le h
    rw [document, readWithin?]
    refine Option.bind_eq_some_iff.mpr ⟨_, variant?_record (by simp) (by decide), ?_⟩
    exact Option.bind_eq_some_iff.mpr ⟨_, fields?_record (by decide) (by simp), rfl⟩
  | laneValues lane default =>
    obtain ⟨levels, rfl, -⟩ := exists_succ_of_depth_record_le h
    rw [document, readWithin?]
    cases default with
    | none =>
      refine Option.bind_eq_some_iff.mpr ⟨_, variant?_record (by simp) (by decide), ?_⟩
      exact Option.bind_eq_some_iff.mpr ⟨_, fields?_record (by decide) (by simp), rfl⟩
    | some value =>
      refine Option.bind_eq_some_iff.mpr ⟨_, variant?_record (by simp) (by decide), ?_⟩
      exact Option.bind_eq_some_iff.mpr ⟨_, fields?_record (by decide) (by simp), rfl⟩
  | deviceTrigger device default ih =>
    cases default with
    | none =>
      obtain ⟨levels, rfl, -⟩ := exists_succ_of_depth_record_le h
      rw [document, readWithin?]
      refine Option.bind_eq_some_iff.mpr ⟨_, variant?_record (by simp) (by decide), ?_⟩
      exact Option.bind_eq_some_iff.mpr ⟨_, fields?_record (by decide) (by simp), rfl⟩
    | some other =>
      obtain ⟨levels, rfl, hfields⟩ := exists_succ_of_depth_record_le h
      have hother := ih other rfl (hfields ("default", other.document) (by simp))
      rw [document, readWithin?]
      refine Option.bind_eq_some_iff.mpr ⟨_, variant?_record (by simp) (by decide), ?_⟩
      refine Option.bind_eq_some_iff.mpr ⟨_, fields?_record (by decide) (by simp), ?_⟩
      refine Option.bind_eq_some_iff.mpr ⟨_, rfl, ?_⟩
      have hdefault := optional?_eq_some_iff.mpr ⟨_, rfl, isNull_document other, hother⟩
      exact Option.bind_eq_some_iff.mpr ⟨_, hdefault, rfl⟩
  | calibrated input inputUnit outputUnit points ih =>
    obtain ⟨levels, rfl, hfields⟩ := exists_succ_of_depth_record_le h
    have hinput := ih (hfields ("input", input.document) (by simp))
    rw [document, readWithin?]
    refine Option.bind_eq_some_iff.mpr ⟨_, variant?_record (by simp) (by decide), ?_⟩
    refine Option.bind_eq_some_iff.mpr ⟨_, fields?_record (by decide) (by simp), ?_⟩
    refine Option.bind_eq_some_iff.mpr ⟨_, hinput, ?_⟩
    refine Option.bind_eq_some_iff.mpr ⟨_, PhysicalUnit.optional?_ofOption_document inputUnit, ?_⟩
    refine Option.bind_eq_some_iff.mpr ⟨_, PhysicalUnit.optional?_ofOption_document outputUnit, ?_⟩
    refine Option.bind_eq_some_iff.mpr ⟨_, rfl, ?_⟩
    exact Option.bind_eq_some_iff.mpr ⟨_, mapM_map_eq_some fun _ _ => rfl, rfl⟩
  | advance input shift ih =>
    obtain ⟨levels, rfl, hfields⟩ := exists_succ_of_depth_record_le h
    have hinput := ih (hfields ("input", input.document) (by simp))
    rw [document, readWithin?]
    refine Option.bind_eq_some_iff.mpr ⟨_, variant?_record (by simp) (by decide), ?_⟩
    refine Option.bind_eq_some_iff.mpr ⟨_, fields?_record (by decide) (by simp), ?_⟩
    exact Option.bind_eq_some_iff.mpr ⟨_, hinput, rfl⟩
  | delay input shift ih =>
    obtain ⟨levels, rfl, hfields⟩ := exists_succ_of_depth_record_le h
    have hinput := ih (hfields ("input", input.document) (by simp))
    rw [document, readWithin?]
    refine Option.bind_eq_some_iff.mpr ⟨_, variant?_record (by simp) (by decide), ?_⟩
    refine Option.bind_eq_some_iff.mpr ⟨_, fields?_record (by decide) (by simp), ?_⟩
    exact Option.bind_eq_some_iff.mpr ⟨_, hinput, rfl⟩

/--
The document of an output is not deeper than the one it was read from.
-/
theorem depth_document_le {levels : Nat} {d : Document α} {o : ChannelOutput α}
    (h : readWithin? levels d = some o) : o.document.depth ≤ d.depth := by
  induction levels generalizing d o with
  | zero => contradiction
  | succ levels ih =>
    obtain ⟨⟨kind, content⟩, hd, h⟩ := Option.bind_eq_some_iff.mp h
    refine Nat.le_trans ?_ (depth_le_of_variant? hd)
    dsimp only at h
    split at h
    . obtain ⟨values, h, hpos, hdepths⟩ := exists_fields_of_bind h
      split at h
      . obtain ⟨value, _, rfl⟩ := Option.map_eq_some_iff.mp h
        simp [document, depth_record_le_iff, hpos]
      . contradiction
    . obtain ⟨values, h, hpos, hdepths⟩ := exists_fields_of_bind h
      split at h
      . obtain ⟨lane, _, h⟩ := Option.bind_eq_some_iff.mp h
        obtain ⟨default, _, h⟩ := Option.bind_eq_some_iff.mp h
        cases h
        cases default <;> simp [document, depth_record_le_iff, hpos]
      . contradiction
    . obtain ⟨values, h, hpos, hdepths⟩ := exists_fields_of_bind h
      split at h
      . obtain ⟨device, _, h⟩ := Option.bind_eq_some_iff.mp h
        obtain ⟨default, hdefault, h⟩ := Option.bind_eq_some_iff.mp h
        cases h
        cases default with
        | none => simp [document, depth_record_le_iff, hpos]
        | some other =>
          obtain ⟨d, rfl, _, hother⟩ := optional?_eq_some_iff.mp hdefault
          have hother := Nat.lt_of_le_of_lt (ih hother) (hdepths (some d) (by simp))
          simp [document, depth_record_le_iff, hpos, hother]
      . contradiction
    . obtain ⟨values, h, hpos, hdepths⟩ := exists_fields_of_bind h
      split at h
      . next input inputUnit outputUnit points =>
        obtain ⟨o, hinput, h⟩ := Option.bind_eq_some_iff.mp h
        obtain ⟨inputUnit, _, h⟩ := Option.bind_eq_some_iff.mp h
        obtain ⟨outputUnit, _, h⟩ := Option.bind_eq_some_iff.mp h
        obtain ⟨items, hitems, h⟩ := Option.bind_eq_some_iff.mp h
        obtain ⟨measured, hmeasured, h⟩ := Option.bind_eq_some_iff.mp h
        cases h
        have hpoints := faithful_readPoint?.list.depth_le
          (Option.bind_eq_some_iff.mpr ⟨items, hitems, hmeasured⟩)
        have hinput := Nat.lt_of_le_of_lt (ih hinput) (hdepths (some input) (by simp))
        have hpoints := Nat.lt_of_le_of_lt hpoints (hdepths (some points) (by simp))
        simp [document, depth_record_le_iff, hpos, hinput, hpoints]
      . contradiction
    . obtain ⟨values, h, hpos, hdepths⟩ := exists_fields_of_bind h
      split at h
      . next input shift =>
        obtain ⟨o, hinput, h⟩ := Option.bind_eq_some_iff.mp h
        obtain ⟨shift, _, h⟩ := Option.bind_eq_some_iff.mp h
        cases h
        have hinput := Nat.lt_of_le_of_lt (ih hinput) (hdepths (some input) (by simp))
        simp [document, depth_record_le_iff, hpos, hinput]
      . contradiction
    . obtain ⟨values, h, hpos, hdepths⟩ := exists_fields_of_bind h
      split at h
      . next input shift =>
        obtain ⟨o, hinput, h⟩ := Option.bind_eq_some_iff.mp h
        obtain ⟨shift, _, h⟩ := Option.bind_eq_some_iff.mp h
        cases h
        have hinput := Nat.lt_of_le_of_lt (ih hinput) (hdepths (some input) (by simp))
        simp [document, depth_record_le_iff, hpos, hinput]
      . contradiction
    . contradiction

theorem read?_document (o : ChannelOutput α) : read? o.document = some o :=
  readWithin?_document o (Nat.le_refl _)

theorem faithful : Faithful (α := α) read? document where
  isTyped := isTyped_document
  depth_le := depth_document_le
  reread {_ o} _ := o.read?_document

theorem rereads_readOuter? (outer : Nat) : Rereads (readOuter? (α := α) outer) document :=
  faithful.rereads_settled exists_document_eq outer

end ChannelOutput

end Waveplan
