import Waveplan.Proofs.Instruction.Concatenate
import Waveplan.Proofs.Instruction.Shape

/-!
This module contains the operations that act on the samples of an instruction and keep the shape of
its tree: they keep its length and its normal form.
-/

namespace Waveplan

variable {α : Type} {t u : SampleType} {name : String} {j : Nat}

theorem SampleType.isInterpolable_project (h : t.isInterpolable = true)
    (hu : t.project name = .ok (j, u)) : u.isInterpolable = true := by
  obtain ⟨fields, rfl, rfl⟩ := project_eq_ok hu
  simp only [isInterpolable, kinds, List.all_eq_true, List.mem_map, forall_exists_index, and_imp,
    forall_apply_eq_imp_iff₂] at h ⊢
  intro f hf
  exact h f (List.mem_of_getElem? (Option.mem_toList.mp hf))

namespace Ramp

variable {r s : Ramp α}

theorem field_eq_ok (h : r.field name = .ok s) :
    ∃ j u, r.sampleType.project name = .ok (j, u)
      ∧ s = ⟨u, r.start[j]?.toList, r.stop[j]?.toList, r.length⟩ := by
  obtain ⟨⟨j, u⟩, hu, h⟩ := Outcome.bind_eq_ok_iff.mp h
  cases h
  exact ⟨j, u, hu, rfl⟩

theorem wellFormed_field (hr : r.WellFormed) (h : r.field name = .ok s) : s.WellFormed := by
  obtain ⟨j, u, hu, rfl⟩ := field_eq_ok h
  refine ⟨SampleType.isInterpolable_project hr.isInterpolable hu, ?_, ?_⟩
  all_goals
    have h₁ := hr.start
    have h₂ := hr.stop
    obtain ⟨fields, hf, rfl⟩ := SampleType.project_eq_ok hu
    rw [hf, SampleType.width] at h₁ h₂
    by_cases hj : j < fields.length
    . simp [SampleType.width, hj, h₁, h₂]
    . simp [SampleType.width, Nat.le_of_not_lt hj, h₁, h₂]

theorem wellFormed_relabel (hr : r.WellFormed) (ht : t.kinds = r.sampleType.kinds) :
    (r.relabel t).WellFormed := by
  have hw : t.width = r.sampleType.width := by
    rw [← SampleType.length_kinds, ht, SampleType.length_kinds]
  refine ⟨?_, hr.start.trans hw.symm, hr.stop.trans hw.symm⟩
  have := hr.isInterpolable
  rwa [SampleType.isInterpolable, ← ht] at this

variable [Number α]

theorem wellFormed_toPattern (hr : r.WellFormed) : r.toPattern.WellFormed := by
  have hw : (List.zipWith (fun a b => Column.float ((List.range r.length).map
      (valueAt a b r.length))) r.start r.stop).length = r.sampleType.kinds.length := by
    rw [List.length_zipWith, hr.start, hr.stop, Nat.min_self, SampleType.length_kinds]
  constructor
  . apply List.ext_getElem
    . rw [List.length_map]
      exact hw
    . intro i h₁ h₂
      have := hr.isInterpolable
      rw [SampleType.isInterpolable, List.all_eq_true] at this
      have hk := this _ (List.getElem_mem h₂)
      simp only [toPattern, List.getElem_map, List.getElem_zipWith, Column.kind]
      exact (of_decide_eq_true hk).symm
  . intro c hc
    obtain ⟨i, hi, rfl⟩ := List.mem_iff_getElem.mp hc
    simp [toPattern, Column.length]

theorem sample_field (hr : r.WellFormed) (hu : r.sampleType.project name = .ok (j, u))
    (h : r.field name = .ok s) (i : Nat) : s.sample i = ⟨(r.sample i).values[j]?.toList⟩ := by
  rw [field, hu] at h
  cases h
  have hw : r.start.length = r.stop.length := hr.start.trans hr.stop.symm
  simp only [sample, valuesAt, List.getElem?_map, List.getElem?_zipWith]
  by_cases hj : j < r.start.length
  . simp [hj, hw ▸ hj]
  . have hj := Nat.le_of_not_lt hj
    simp [hj, hw ▸ hj]

end Ramp

namespace Instruction

section Relabel

theorem shape_relabel (x : Instruction α) (t : SampleType) : (x.relabel t).shape = x.shape := by
  induction x with
  | pattern p => rw [relabel, shape, shape]; rfl
  | ramp r => rw [relabel, shape, shape]; rfl
  | concatenated xs ih =>
    rw [relabel, relabelAll_eq]
    exact shape_concatenated_eq (List.forall₂_map_right_iff.mpr (List.forall₂_same.mpr ih))
  | repeated n body ih => rw [relabel, shape, shape, ih]

@[simp]
theorem length_relabel (x : Instruction α) (t : SampleType) : (x.relabel t).length = x.length :=
  length_eq_of_shape_eq (shape_relabel x t)

theorem typed_relabel {x : Instruction α} (hx : x.Normal) (ht : t.kinds = x.sampleType.kinds) :
    (x.relabel t).Typed t := by
  induction x with
  | pattern p =>
    exact ⟨normal_pattern.mpr (Pattern.wellFormed_relabel (normal_pattern.mp hx) ht), rfl⟩
  | ramp r =>
    obtain ⟨hr, hl⟩ := normal_ramp.mp hx
    exact ⟨normal_ramp.mpr ⟨Ramp.wellFormed_relabel hr ht, hl⟩, rfl⟩
  | concatenated xs ih =>
    obtain ⟨_, _, hparts⟩ := normal_concatenated.mp hx
    rw [relabel, relabelAll_eq]
    refine typed_concatenated_of_shapes hx (List.forall₂_map_right_iff.mpr
      (List.forall₂_same.mpr fun x hm => ⟨?_, shape_relabel x t⟩))
    have hp := hparts x hm
    exact ih x hm hp.normal (by rw [hp.sampleType]; exact ht)
  | repeated n body ih =>
    obtain ⟨_, _, _, hbody⟩ := normal_repeated.mp hx
    rw [relabel]
    exact typed_repeated_of_shape hx (ih hbody ht) (shape_relabel body t)

end Relabel

variable {x y : Instruction α} {f : Pattern α → Except InstructionError (Pattern α)}

theorem withName_eq_ok (h : x.withName name = .ok y) :
    ∃ kind, x.sampleType.kinds = [kind] ∧ y = x.relabel (.named name kind) := by
  unfold withName at h
  split at h
  . next kind hk =>
    cases h
    exact ⟨kind, hk, rfl⟩
  . contradiction

theorem typed_withName (hx : x.Normal) (h : x.withName name = .ok y) :
    ∃ kind, x.sampleType.kinds = [kind] ∧ y.Typed (.named name kind) := by
  obtain ⟨kind, hk, rfl⟩ := withName_eq_ok h
  exact ⟨kind, hk, typed_relabel hx hk.symm⟩

theorem normal_applyPattern (hf : ∀ p q, p.WellFormed → f p = .ok q → q.WellFormed)
    {p : Pattern α} (hp : p.WellFormed) (h : applyPattern f p = .ok y) :
    y.Normal ∧ y.length = p.length := by
  obtain ⟨q, hq, h⟩ := Outcome.bind_eq_ok_iff.mp h
  split at h
  . next hl =>
    cases h
    exact ⟨normal_pattern.mpr (hf p q hp hq), hl⟩
  . contradiction

variable [Number α]

theorem sampleAt_relabel (x : Instruction α) (t : SampleType) (i : Nat) :
    (x.relabel t).sampleAt i = x.sampleAt i := by
  induction x generalizing i with
  | pattern p => rw [relabel, sampleAt, sampleAt, Pattern.sample_relabel]
  | ramp r => rw [relabel, sampleAt, sampleAt]; rfl
  | concatenated xs ih =>
    rw [relabel, sampleAt, sampleAt]
    induction xs generalizing i with
    | nil => rfl
    | cons x xs ihs =>
      obtain ⟨hx, hxs⟩ := List.forall_mem_cons.mp ih
      rw [relabelAll, sampleAtParts, sampleAtParts, length_relabel, hx, ihs hxs]
  | repeated n body ih => rw [relabel, sampleAt, sampleAt, length_relabel, ih]

theorem exists_field (hx : x.Normal) (hu : x.sampleType.project name = .ok (j, u)) :
    ∃ y, x.field name = .ok y ∧ y.Typed u ∧ y.length = x.length
      ∧ ∀ i < x.length, y.sampleAt i = ⟨(x.sampleAt i).values[j]?.toList⟩ := by
  induction x with
  | pattern p =>
    have hp := normal_pattern.mp hx
    have hf : p.field name = .ok ⟨u, p.columns[j]?.toList, p.length⟩ := by
      rw [sampleType_pattern] at hu
      rw [Pattern.field, hu]
      rfl
    refine ⟨_, by rw [field, hf]; rfl, typed_pattern (Pattern.wellFormed_field hp hf), rfl, ?_⟩
    intro i _
    rw [sampleAt, sampleAt, Pattern.sample_field hu hf]
  | ramp r =>
    obtain ⟨hr, hl⟩ := normal_ramp.mp hx
    have hf : r.field name = .ok ⟨u, r.start[j]?.toList, r.stop[j]?.toList, r.length⟩ := by
      rw [sampleType_ramp] at hu
      rw [Ramp.field, hu]
      rfl
    refine ⟨_, by rw [field, hf]; rfl,
      ⟨normal_ramp.mpr ⟨Ramp.wellFormed_field hr hf, hl⟩, rfl⟩, rfl, ?_⟩
    intro i _
    rw [sampleAt, sampleAt, Ramp.sample_field hr hu hf]
  | concatenated xs ih =>
    obtain ⟨_, _, hparts⟩ := normal_concatenated.mp hx
    have hfield : ∀ x ∈ xs, ∃ y, x.field name = .ok y ∧ y.Typed u ∧ y.length = x.length
        ∧ ∀ i < x.length, y.sampleAt i = ⟨(x.sampleAt i).values[j]?.toList⟩ := by
      intro x hm
      have hp := hparts x hm
      exact ih x hm hp.normal (by rw [hp.sampleType]; exact hu)
    obtain ⟨ys, hys, hall⟩ := Outcome.exists_mapM_eq_ok hfield
    -- the parts are joined at the type of the first one, which all of them share
    obtain ⟨htyped, hl⟩ := typed_of_forall₂ (hall.imp fun x y h => ⟨h.1, h.2.1⟩)
    have hh := headType_eq (ne_nil_of_forall₂ hx hall) fun y hy => (htyped y hy).sampleType
    refine ⟨join u ys, ?_, typed_join htyped, by simpa using hl, ?_⟩
    . rw [field, fieldAll_eq, hys, ← hh]
      rfl
    . intro i hi
      rw [length_concatenated] at hi
      rw [sampleAt_join htyped (hl ▸ hi), sampleAt]
      exact sampleAtParts_of_forall₂ (f := fun s => ⟨s.values[j]?.toList⟩)
        (hall.imp fun x y h => h.2) hi
  | repeated n body ih =>
    obtain ⟨hn, hpos, _, hbody⟩ := normal_repeated.mp hx
    obtain ⟨y, hy, ht, hl, hs⟩ := ih hbody hu
    refine ⟨y.times n, by rw [field, hy]; rfl, typed_times ht n, by simp [hl], ?_⟩
    intro i hi
    rw [length_repeated, ← hl] at hi
    rw [sampleAt_times hi, sampleAt, hl]
    exact hs _ (Nat.mod_lt i hpos)

theorem project_of_field (hx : x.Normal) (h : x.field name = .ok y) :
    ∃ j u, x.sampleType.project name = .ok (j, u) := by
  induction x generalizing y with
  | pattern p =>
    obtain ⟨q, hq, _⟩ := Outcome.map_eq_ok_iff.mp (by rwa [field] at h)
    obtain ⟨⟨j, u⟩, hu, _⟩ := Outcome.bind_eq_ok_iff.mp hq
    exact ⟨j, u, hu⟩
  | ramp r =>
    obtain ⟨s, hs, _⟩ := Outcome.map_eq_ok_iff.mp (by rwa [field] at h)
    obtain ⟨j, u, hu, _⟩ := Ramp.field_eq_ok hs
    exact ⟨j, u, hu⟩
  | concatenated xs ih =>
    obtain ⟨hn, _, hparts⟩ := normal_concatenated.mp hx
    rw [field] at h
    obtain ⟨ys, hys, _⟩ := Outcome.bind_eq_ok_iff.mp h
    cases xs with
    | nil => simp at hn
    | cons x xs =>
      obtain ⟨z, hz, _⟩ := Outcome.bind_eq_ok_iff.mp hys
      exact ih x List.mem_cons_self (hparts x List.mem_cons_self).normal hz
  | repeated n body ih =>
    obtain ⟨_, _, _, hbody⟩ := normal_repeated.mp hx
    rw [field] at h
    obtain ⟨z, hz, _⟩ := Outcome.map_eq_ok_iff.mp h
    exact ih hbody hz

theorem normal_field (hx : x.Normal) (h : x.field name = .ok y) : y.Normal := by
  obtain ⟨j, u, hu⟩ := project_of_field hx h
  obtain ⟨z, hz, ht, _⟩ := exists_field hx hu
  cases hz.symm.trans h
  exact ht.normal

theorem normal_apply (hf : ∀ p q, p.WellFormed → f p = .ok q → q.WellFormed) (hx : x.Normal)
    (h : x.apply f = .ok y) : y.Normal ∧ y.length = x.length := by
  induction x generalizing y with
  | pattern p =>
    rw [apply] at h
    exact normal_applyPattern hf (normal_pattern.mp hx) h
  | ramp r =>
    rw [apply] at h
    exact normal_applyPattern hf (Ramp.wellFormed_toPattern (normal_ramp.mp hx).1) h
  | concatenated xs ih =>
    rw [apply] at h
    obtain ⟨ys, hys, h⟩ := Outcome.bind_eq_ok_iff.mp h
    rw [applyAll_eq, Outcome.mapM_eq_ok_iff] at hys
    obtain ⟨_, _, hparts⟩ := normal_concatenated.mp hx
    obtain ⟨hnormal, hl⟩ := normal_of_forall₂ (Outcome.forall₂_imp_of_mem hys
      fun x hm y hy => ih x hm (hparts x hm).normal hy)
    exact ⟨normal_concatenate hnormal h, (length_concatenate hnormal h).trans hl⟩
  | repeated n body ih =>
    rw [apply] at h
    obtain ⟨z, hz, rfl⟩ := Outcome.map_eq_ok_iff.mp h
    obtain ⟨_, _, _, hbody⟩ := normal_repeated.mp hx
    obtain ⟨hn, hl⟩ := ih hbody hz
    exact ⟨(typed_times hn.typed n).normal, by simp [hl]⟩

end Instruction

end Waveplan
