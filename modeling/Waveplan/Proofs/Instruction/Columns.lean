import Waveplan.Proofs.Instruction.Stack
import Waveplan.Number.Double

/-!
This module contains what stacked instructions are written out as: the columns of the operands in
order. Every channel of an operand is therefore a channel of the whole.
-/

namespace Waveplan

namespace SampleType

variable {l r : List Field} {t u v : SampleType} {name : String} {j : Nat}

/--
Two lists of channels without a common name.
-/
def AreDisjoint (l r : List Field) : Prop := ∀ f ∈ l, ∀ g ∈ r, f.name ≠ g.name

theorem merge_record (h : AreDisjoint l r) :
    merge (.record l) (.record r) = .ok (.record (l ++ r)) := by
  have ho : overlap l r = [] := by
    rw [overlap, List.map_eq_nil_iff, List.filter_eq_nil_iff]
    intro f hf
    simpa using fun g hg => (h f hf g hg).symm
  rw [merge]
  simp only [ho]

theorem overlap_eq (l r : List Field) :
    overlap l r = (l.map Field.name).filter (· ∈ r.map Field.name) := by
  rw [overlap, List.filter_map]
  congr 1
  apply List.filter_congr
  intro f _
  simp [List.any_eq, eq_comm]

theorem merge_record_of_not_disjoint (h : ¬AreDisjoint l r) :
    merge (.record l) (.record r)
      = .error (.overlappingChannels ((l.map Field.name).filter (· ∈ r.map Field.name))) := by
  rw [← overlap_eq, merge]
  cases ho : overlap l r with
  | nil =>
    refine absurd (fun f hf g hg hfg => ?_) h
    rw [overlap_eq, List.filter_eq_nil_iff] at ho
    exact ho f.name (List.mem_map_of_mem hf)
      (decide_eq_true (hfg ▸ List.mem_map_of_mem hg))
  | cons name names => rfl

theorem merge_eq_ok_iff : t.merge u = .ok v ↔
    ∃ l r, t = .record l ∧ u = .record r ∧ AreDisjoint l r ∧ v = .record (l ++ r) := by
  constructor
  . intro h
    cases t with
    | scalar => contradiction
    | record l =>
      cases u with
      | scalar => contradiction
      | record r =>
        by_cases hd : AreDisjoint l r
        . rw [merge_record hd] at h
          exact ⟨l, r, rfl, rfl, hd, (Except.ok.inj h).symm⟩
        . rw [merge_record_of_not_disjoint hd] at h
          contradiction
  . rintro ⟨l, r, rfl, rfl, hd, rfl⟩
    exact merge_record hd

theorem project_record {fields : List Field} :
    (SampleType.record fields).project name = .ok (j, u)
      ↔ fields.findIdx? (·.name = name) = some j ∧ u = .record fields[j]?.toList := by
  unfold project fieldIndex
  cases h : fields.findIdx? (·.name = name) with
  | none => simp [bind, Except.bind, h]
  | some i =>
    simp only [bind, Except.bind, h, Except.ok.injEq, Prod.mk.injEq, Option.some.injEq]
    constructor
    . rintro ⟨rfl, rfl⟩
      exact ⟨rfl, rfl⟩
    . rintro ⟨rfl, rfl⟩
      exact ⟨rfl, rfl⟩

theorem exists_project {f : Field} (h : f ∈ l) :
    ∃ j, j < l.length ∧ (SampleType.record l).project f.name = .ok (j, .record l[j]?.toList) := by
  have hs : (l.findIdx? (·.name = f.name)).isSome := by
    rw [List.findIdx?_isSome, List.any_eq_true]
    exact ⟨f, h, by simp⟩
  obtain ⟨j, hj⟩ := Option.isSome_iff_exists.mp hs
  obtain ⟨hl, _⟩ := List.findIdx?_eq_some_iff_getElem.mp hj
  exact ⟨j, hl, project_record.mpr ⟨hj, rfl⟩⟩

theorem project_append_left (hj : j < l.length)
    (h : (SampleType.record l).project name = .ok (j, u)) (r : List Field) :
    (SampleType.record (l ++ r)).project name = .ok (j, u) := by
  obtain ⟨hj', rfl⟩ := project_record.mp h
  refine project_record.mpr ⟨?_, ?_⟩
  . rw [List.findIdx?_append, hj']
    rfl
  . rw [List.getElem?_append_left hj]

theorem project_append_right (hl : ∀ f ∈ l, f.name ≠ name)
    (h : (SampleType.record r).project name = .ok (j, u)) :
    (SampleType.record (l ++ r)).project name = .ok (l.length + j, u) := by
  obtain ⟨hj, rfl⟩ := project_record.mp h
  have hn : l.findIdx? (·.name = name) = none := by
    rw [List.findIdx?_eq_none_iff]
    simpa using hl
  refine project_record.mpr ⟨?_, ?_⟩
  . rw [List.findIdx?_append, hn, hj]
    simp [Nat.add_comm]
  . rw [List.getElem?_append_right (Nat.le_add_right _ _), Nat.add_sub_cancel_left]

end SampleType

theorem Pattern.field_eq_ok {α : Type} {p : Pattern α} {name : String} {j : Nat} {u : SampleType}
    (h : p.sampleType.project name = .ok (j, u)) :
    p.field name = .ok ⟨u, p.columns[j]?.toList, p.length⟩ := by
  rw [field, h]
  rfl

namespace Instruction

variable {α : Type} [Number α]

theorem field_toPattern {x y : Instruction α} {name : String} (hx : x.Normal)
    (h : x.field name = .ok y) : x.toPattern.field name = .ok y.toPattern := by
  obtain ⟨j, u, hu⟩ := project_of_field hx h
  obtain ⟨z, hz, ht, hl, hs⟩ := exists_field hx hu
  cases hz.symm.trans h
  have hp := wellFormed_toPattern hx
  have hu' := (congrArg (SampleType.project · name) (sampleType_toPattern hx)).trans hu
  have hf := Pattern.field_eq_ok hu'
  rw [hf]
  congr 1
  apply Pattern.ext_sample (Pattern.wellFormed_field hp hf) (wellFormed_toPattern ht.normal)
  . rw [sampleType_toPattern ht.normal, ht.sampleType]
  . rw [length_toPattern ht.normal, hl]
    exact length_toPattern hx
  . intro i hi
    have hi : i < x.length := by rwa [← length_toPattern hx]
    rw [Pattern.sample_field hu' hf, sample_toPattern hx hi,
      sample_toPattern ht.normal (hl ▸ hi), hs i hi]

section Operands

variable {Q : Ramp α → Prop} {a b s : Instruction α} {l r : List Field}

theorem IsStack.columns {t : SampleType} (hQ : IsDivisible Q) (ha : a.Normal) (hb : b.Normal)
    (hra : a.RampsSatisfy Q) (hrb : b.RampsSatisfy Q) (hl : a.length = b.length)
    (ht : a.sampleType.merge b.sampleType = .ok t) (hs : IsStack t a b 0 a.length s) :
    s.toPattern = ⟨t, a.toPattern.columns ++ b.toPattern.columns, a.toPattern.length⟩ := by
  have hlp : a.toPattern.length = b.toPattern.length := by
    rw [length_toPattern ha, length_toPattern hb, hl]
  have htp : a.toPattern.sampleType.merge b.toPattern.sampleType = .ok t := by
    rw [sampleType_toPattern ha, sampleType_toPattern hb, ht]
  have hst := Pattern.stack_eq_ok hlp htp
  have hn := hs.typed.normal
  have hls : s.length = a.length := hs.length
  apply Pattern.ext_sample (wellFormed_toPattern hn)
    (Pattern.wellFormed_stack (wellFormed_toPattern ha) (wellFormed_toPattern hb) hst)
  . rw [sampleType_toPattern hn, hs.typed.sampleType]
  . rw [length_toPattern hn, length_toPattern ha, hls]
  . intro i hi
    rw [length_toPattern hn, hls] at hi
    rw [Pattern.sample_stack hlp htp hst, sample_toPattern hn (hls ▸ hi),
      sample_toPattern ha hi, sample_toPattern hb (hl ▸ hi), hs.sampleAt hQ hra hrb i hi,
      Nat.zero_add]
    rfl

theorem length_columns_toPattern {x : Instruction α} (hx : x.Normal)
    (ht : x.sampleType = .record l) : x.toPattern.columns.length = l.length := by
  rw [(wellFormed_toPattern hx).length_columns, sampleType_toPattern hx, ht]
  rfl

theorem exists_field_toPattern {x : Instruction α} {name : String} {j : Nat} {u : SampleType}
    (hx : x.Normal) (hu : x.sampleType.project name = .ok (j, u)) :
    ∃ y, x.field name = .ok y
      ∧ y.toPattern = ⟨u, x.toPattern.columns[j]?.toList, x.toPattern.length⟩ := by
  obtain ⟨y, hy, _⟩ := exists_field hx hu
  have hf := field_toPattern hx hy
  rw [Pattern.field_eq_ok (by rw [sampleType_toPattern hx, hu])] at hf
  exact ⟨y, hy, (Except.ok.inj hf).symm⟩

/--
Stacking puts the columns of the operands side by side, and every channel of an operand is found
again in the result.
-/
theorem exists_stack_columns (ha : a.Normal) (hb : b.Normal) (hra : ∀ r, ¬IsNode (ramp r) a)
    (hrb : ∀ r, ¬IsNode (ramp r) b) (hl : a.length = b.length) (hta : a.sampleType = .record l)
    (htb : b.sampleType = .record r) (hd : SampleType.AreDisjoint l r) :
    ∃ s, stack a b = .ok s ∧ s.sampleType = .record (l ++ r) ∧ s.length = a.length
      ∧ s.toPattern.columns = a.toPattern.columns ++ b.toPattern.columns
      ∧ (∀ f ∈ l, ∃ x y, s.field f.name = .ok x ∧ a.field f.name = .ok y
        ∧ x.toPattern = y.toPattern)
      ∧ (∀ f ∈ r, ∃ x y, s.field f.name = .ok x ∧ b.field f.name = .ok y
        ∧ x.toPattern = y.toPattern) := by
  have ht : a.sampleType.merge b.sampleType = .ok (.record (l ++ r)) := by
    rw [hta, htb, SampleType.merge_record hd]
  obtain ⟨s, hs, hst⟩ := exists_stack ha hb hl ht
  have hc := hst.columns isDivisible_false ha hb hra hrb hl ht
  have hn := hst.typed.normal
  have hts := hst.typed.sampleType
  have hlb : a.toPattern.length = b.toPattern.length := by
    rw [length_toPattern ha, length_toPattern hb, hl]
  refine ⟨s, hs, hts, hst.length, by rw [hc], ?_, ?_⟩
  -- a channel of `a` keeps its position, and one of `b` comes after all of those
  . intro f hf
    obtain ⟨j, hj, hu⟩ := SampleType.exists_project hf
    obtain ⟨y, hy, hyp⟩ := exists_field_toPattern ha (hta ▸ hu)
    obtain ⟨x, hx, hxp⟩ := exists_field_toPattern hn
      (hts ▸ SampleType.project_append_left hj hu r)
    refine ⟨x, y, hx, hy, ?_⟩
    rw [hxp, hyp, hc, List.getElem?_append_left (by rwa [length_columns_toPattern ha hta])]
  . intro f hf
    obtain ⟨j, hj, hu⟩ := SampleType.exists_project hf
    obtain ⟨y, hy, hyp⟩ := exists_field_toPattern hb (htb ▸ hu)
    obtain ⟨x, hx, hxp⟩ := exists_field_toPattern hn
      (hts ▸ SampleType.project_append_right (fun g hg => hd g hg f hf) hu)
    refine ⟨x, y, hx, hy, ?_⟩
    rw [hxp, hyp, hc, ← length_columns_toPattern ha hta,
      List.getElem?_append_right (Nat.le_add_right _ _), Nat.add_sub_cancel_left, hlb]

end Operands

theorem exists_stack_columns_switches :
    ∃ s, stack (repeated 4 (pattern ⟨.named "a" .bool, [.bool [true]], 1⟩) : Instruction Float)
        (repeated 2 (pattern ⟨.named "b" .bool, [.bool [true, false]], 2⟩)) = .ok s
      ∧ s.toPattern.columns
        = [.bool [true, true, true, true], .bool [true, false, true, false]] := by
  have hp {name : String} {values : List Bool} :
      (⟨.named name .bool, [.bool values], values.length⟩ : Pattern Float).WellFormed :=
    ⟨rfl, by simp [Column.length]⟩
  have ha : (repeated 4 (pattern ⟨.named "a" .bool, [.bool [true]], 1⟩) :
      Instruction Float).Normal :=
    normal_repeated.mpr ⟨by decide, by simp, by simp, normal_pattern.mpr hp⟩
  have hb : (repeated 2 (pattern ⟨.named "b" .bool, [.bool [true, false]], 2⟩) :
      Instruction Float).Normal :=
    normal_repeated.mpr ⟨by decide, by simp, by simp, normal_pattern.mpr hp⟩
  obtain ⟨s, hs, _, _, hc, _⟩ := exists_stack_columns ha hb
    (rampsSatisfy_repeated.mpr (rampsSatisfy_pattern _))
    (rampsSatisfy_repeated.mpr (rampsSatisfy_pattern _)) (by simp) rfl rfl
    (by simp [SampleType.AreDisjoint])
  exact ⟨s, hs, hc⟩

end Instruction

end Waveplan
