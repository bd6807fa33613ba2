import Waveplan.Config.Lane
import Waveplan.Proofs.Document.Faithful

/-!
This module contains that lanes and steps are read as they were after they have been written.
-/

namespace Waveplan

open Document

variable {α : Type}

theorem Document.word?_nat (n : UInt64) : (Document.nat n.toNat : Document α).word? = some n := by
  have hlt : (n.toNat : Int) < wordModulus := by exact_mod_cast n.toNat_lt
  rw [word?, nat, integer?]
  simp only [Int.natCast_nonneg, hlt, and_self, if_true, Int.toNat_natCast, UInt64.ofNat_toNat]

theorem Document.isTyped_nat (n : UInt64) : (Document.nat n.toNat : Document α).isTyped := by
  have hlt : (n.toNat : Int) < wordModulus := by exact_mod_cast n.toNat_lt
  rw [nat, isTyped, Bool.and_eq_true, decide_eq_true_eq, decide_eq_true_eq]
  omega

@[simp]
theorem Expression.isTyped_document (e : Expression) :
    (e.document : Document α).isTyped = true := rfl

@[simp]
theorem Expression.depth_document (e : Expression) : (e.document : Document α).depth = 0 := rfl

theorem DigitalValue.faithful : Faithful (α := α) DigitalValue.read? DigitalValue.document where
  isTyped value := by cases value <;> rfl
  depth_le {_ value} _ := by cases value <;> exact Nat.zero_le _
  reread {_ value} _ := by cases value <;> rfl

namespace AnalogValue

/--
The word for a ramp is read as a ramp.
-/
theorem ofExpression_toExpression (e : Expression) :
    ofExpression (ofExpression e).toExpression = ofExpression e := by
  by_cases h : Text.trim e.body.toList = rampKeyword.toList
  . have hramp : ofExpression e = .ramp := if_pos h
    rw [hramp]
    decide
  . have hexpression : ofExpression e = .expression e := if_neg h
    rw [hexpression]
    exact hexpression

theorem faithful : Faithful (α := α) read? document where
  isTyped _ := rfl
  depth_le _ := Nat.zero_le _
  reread {d value} h := by
    obtain ⟨e, _, rfl⟩ := Option.map_eq_some_iff.mp h
    exact congrArg some (ofExpression_toExpression e)

end AnalogValue

theorem Picture.faithful : Faithful (α := α) Picture.read? Picture.document where
  isTyped _ := rfl
  depth_le {d picture} h := by
    obtain ⟨_, _, hpos, _⟩ := exists_fields_of_bind h
    exact depth_record_le_iff.mpr ⟨hpos, List.forall_mem_singleton.mpr hpos⟩
  reread {d picture} _ := by
    unfold read?
    rw [document, fields?_record (by decide) (by simp)]
    rfl

namespace Block

variable {β : Type} {readValue : Option (Document α) → Option β} {writeValue : β → Document α}

theorem read?_eq_some_iff {d : Document α} {b : Block β} :
    read? readValue d = some b
      ↔ ∃ value span, d.fields? ["value", "span"] = some [value, some span]
        ∧ readValue value = some b.value ∧ span.word? = some b.span := by
  unfold read?
  rw [Option.bind_eq_bind, Option.bind_eq_some_iff]
  constructor
  . rintro ⟨values, hvalues, h⟩
    split at h
    . obtain ⟨value, hvalue, h⟩ := Option.bind_eq_some_iff.mp h
      obtain ⟨span, hspan, h⟩ := Option.bind_eq_some_iff.mp h
      cases h
      exact ⟨_, _, hvalues, hvalue, hspan⟩
    . contradiction
  . rintro ⟨value, span, hvalues, hvalue, hspan⟩
    refine ⟨_, hvalues, ?_⟩
    exact Option.bind_eq_some_iff.mpr ⟨_, hvalue, Option.bind_eq_some_iff.mpr ⟨_, hspan, rfl⟩⟩

theorem faithful (h : FaithfulField readValue writeValue) :
    Faithful (read? readValue) (document writeValue) where
  isTyped b := by
    rw [document, isTyped_record_iff]
    simp [h.isTyped, isTyped_nat]
  depth_le {d b} hd := by
    obtain ⟨value, span, hvalues, hvalue, _⟩ := read?_eq_some_iff.mp hd
    obtain ⟨hpos, hdepths⟩ := fieldDepth_lt_of_fields? hvalues
    have := h.depth_le hvalue
    have := hdepths value List.mem_cons_self
    rw [document, depth_record_le_iff]
    simp only [List.mem_cons, List.not_mem_nil, or_false, forall_eq_or_imp, forall_eq]
    exact ⟨hpos, by omega, hpos⟩
  reread {d b} hd := by
    obtain ⟨value, span, _, hvalue, _⟩ := read?_eq_some_iff.mp hd
    refine read?_eq_some_iff.mpr ⟨_, _, fields?_record (by decide) (by simp), h.reread hvalue, ?_⟩
    exact word?_nat b.span

theorem readAll?_eq_some_iff {d : Document α} {bs : List (Block β)} :
    readAll? readValue d = some bs
      ↔ ∃ blocks, d.fields? ["blocks"] = some [some blocks]
        ∧ (blocks.list?.bind fun items => items.mapM (read? readValue)) = some bs := by
  unfold readAll?
  rw [Option.bind_eq_bind, Option.bind_eq_some_iff]
  constructor
  . rintro ⟨values, hvalues, h⟩
    split at h
    . exact ⟨_, hvalues, h⟩
    . contradiction
  . rintro ⟨blocks, hvalues, h⟩
    exact ⟨_, hvalues, h⟩

theorem faithful_all (h : FaithfulField readValue writeValue) :
    Faithful (readAll? readValue)
      (fun bs => .record [("blocks", .list (bs.map (document writeValue)))]) where
  isTyped bs := by
    rw [isTyped_record_iff, List.forall_mem_singleton]
    exact (faithful h).list.isTyped bs
  depth_le {d bs} hd := by
    obtain ⟨blocks, hvalues, hblocks⟩ := readAll?_eq_some_iff.mp hd
    obtain ⟨hpos, hdepths⟩ := fieldDepth_lt_of_fields? hvalues
    rw [depth_record_le_iff, List.forall_mem_singleton]
    exact ⟨hpos, Nat.lt_of_le_of_lt ((faithful h).list.depth_le hblocks)
      (hdepths _ List.mem_cons_self)⟩
  reread {d bs} hd := by
    obtain ⟨blocks, _, hblocks⟩ := readAll?_eq_some_iff.mp hd
    exact readAll?_eq_some_iff.mpr
      ⟨_, fields?_record (by decide) (by simp), (faithful h).list.reread hblocks⟩

end Block

namespace Lane

theorem faithful : Faithful (α := α) read? document := by
  have hdigital := Block.faithful_all (α := α) DigitalValue.faithful.field
  have hanalog := Block.faithful_all (α := α) AnalogValue.faithful.field
  have hcamera := Block.faithful_all (α := α) (Picture.faithful.optional fun _ => rfl)
  refine Faithful.intro (fun lane => ?_) fun d lane h => ?_
  . cases lane with
    | digital blocks => exact isTyped_tagged (hdigital.isTyped blocks)
    | analog blocks => exact isTyped_tagged (hanalog.isTyped blocks)
    | camera blocks => exact isTyped_tagged (hcamera.isTyped blocks)
  . obtain ⟨⟨kind, content⟩, hd, h⟩ := Option.bind_eq_some_iff.mp h
    split at h
    . next he =>
      cases he
      obtain ⟨blocks, hblocks, rfl⟩ := Option.map_eq_some_iff.mp h
      obtain ⟨hdepth, hvariant, hread⟩ := hdigital.tagged hd hblocks (by simp) (by decide)
      refine ⟨hdepth, ?_⟩
      unfold read? document Lane.kind blockDocuments
      rw [hvariant]
      exact Option.map_eq_some_iff.mpr ⟨_, hread, rfl⟩
    . next he =>
      cases he
      obtain ⟨blocks, hblocks, rfl⟩ := Option.map_eq_some_iff.mp h
      obtain ⟨hdepth, hvariant, hread⟩ := hanalog.tagged hd hblocks (by simp) (by decide)
      refine ⟨hdepth, ?_⟩
      unfold read? document Lane.kind blockDocuments
      rw [hvariant]
      exact Option.map_eq_some_iff.mpr ⟨_, hread, rfl⟩
    . next he =>
      cases he
      obtain ⟨blocks, hblocks, rfl⟩ := Option.map_eq_some_iff.mp h
      obtain ⟨hdepth, hvariant, hread⟩ := hcamera.tagged hd hblocks (by simp) (by decide)
      refine ⟨hdepth, ?_⟩
      unfold read? document Lane.kind blockDocuments
      rw [hvariant]
      exact Option.map_eq_some_iff.mpr ⟨_, hread, rfl⟩
    . contradiction

theorem rereads_readOuter? (outer : Nat) : Rereads (readOuter? (α := α) outer) document :=
  faithful.rereads_settled (fun lane => ⟨lane.kind, _, by simp, rfl⟩) outer

end Lane

namespace Step

theorem read?_document (step : Step) : read? (step.document : Document α) = some step := by
  unfold read?
  rw [document, outerFields?_record, fields?_record (by decide) (by simp)]
  rfl

end Step

end Waveplan
