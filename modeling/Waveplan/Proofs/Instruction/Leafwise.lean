import Waveplan.Proofs.Instruction.Columns
import Waveplan.Proofs.Instruction.Recast

/-!
This module contains that the choice of a channel, a cast and a name act on the leaves of an
instruction alone: the tree above them stays as it is, and the columns that it is written out as
are the ones that the leaves say.
-/

namespace Waveplan

section Possible

variable {α : Type} {p : Pattern α} {t : SampleType} {name : String}

theorem SampleType.exists_project_iff :
    (∃ j u, t.project name = .ok (j, u))
      ↔ ∃ fields, t = .record fields ∧ name ∈ fields.map Field.name := by
  constructor
  . rintro ⟨j, u, h⟩
    obtain ⟨fields, rfl, _⟩ := project_eq_ok h
    obtain ⟨hj, hn, _⟩ := List.findIdx?_eq_some_iff_getElem.mp (project_record.mp h).1
    exact ⟨fields, rfl, List.mem_map.mpr ⟨fields[j], List.getElem_mem hj, of_decide_eq_true hn⟩⟩
  . rintro ⟨fields, rfl, h⟩
    obtain ⟨f, hf, rfl⟩ := List.mem_map.mp h
    obtain ⟨j, _, hu⟩ := exists_project hf
    exact ⟨j, _, hu⟩

/--
The one column of the channel that is chosen is the one with its name, and has its kind.
-/
theorem Pattern.exists_column (hp : p.WellFormed) {j : Nat} {u : SampleType}
    (h : p.sampleType.project name = .ok (j, u)) :
    ∃ c, p.column name = .ok c ∧ p.columns[j]?.toList = [c] ∧ u = .named name c.kind := by
  obtain ⟨fields, ht, _⟩ := SampleType.project_eq_ok h
  rw [ht] at h
  obtain ⟨hf, rfl⟩ := SampleType.project_record.mp h
  obtain ⟨hj, hn, _⟩ := List.findIdx?_eq_some_iff_getElem.mp hf
  have hl : j < p.columns.length := by
    rw [hp.length_columns, ht]
    exact hj
  have hk : p.columns[j].kind = fields[j].kind := by
    have hkinds := hp.kinds
    rw [ht, SampleType.kinds] at hkinds
    have hget := congrArg (·[j]?) hkinds
    simpa [hl, hj] using hget
  refine ⟨p.columns[j], ?_, by simp [hl], ?_⟩
  . rw [column, ht, SampleType.fieldIndex, hf]
    simp [bind, Except.bind, hl]
  . rw [hk, List.getElem?_eq_getElem hj, ← of_decide_eq_true hn]
    rfl

end Possible

namespace Instruction

variable {α : Type} [Number α] {x y : Instruction α} {t u : SampleType} {name : String} {j : Nat}

section Field

theorem typed_field (hx : x.Normal) (hu : x.sampleType.project name = .ok (j, u))
    (h : x.field name = .ok y) : y.Typed u := by
  obtain ⟨z, hz, ht, _⟩ := exists_field hx hu
  cases hz.symm.trans h
  exact ht

theorem shape_field (hx : x.Normal) (hu : x.sampleType.project name = .ok (j, u))
    (h : x.field name = .ok y) : y.shape = x.shape := by
  induction x generalizing y with
  | pattern p =>
    rw [field, Pattern.field_eq_ok hu] at h
    cases h
    rw [shape, shape]
  | ramp r =>
    rw [field] at h
    obtain ⟨s, hs, rfl⟩ := Outcome.map_eq_ok_iff.mp h
    obtain ⟨_, _, _, rfl⟩ := Ramp.field_eq_ok hs
    rw [shape, shape]
  | concatenated xs ih =>
    obtain ⟨_, _, hparts⟩ := normal_concatenated.mp hx
    rw [field, fieldAll_eq] at h
    obtain ⟨ys, hys, h⟩ := Outcome.bind_eq_ok_iff.mp h
    cases h
    have hall : List.Forall₂ (fun x y => y.Typed u ∧ y.shape = x.shape) xs ys :=
      Outcome.forall₂_imp_of_mem (Outcome.mapM_eq_ok_iff.mp hys) fun x hm y hy => by
        have hp := hparts x hm
        have hu : x.sampleType.project name = .ok (j, u) := by
          rw [hp.sampleType]
          exact hu
        exact ⟨typed_field hp.normal hu hy, ih x hm hp.normal hu hy⟩
    have hty := typed_concatenated_of_shapes hx hall
    rw [show headType ys = u from hty.sampleType, join_eq_concatenated hty]
    exact shape_concatenated_eq (hall.imp fun _ _ h => h.2)
  | repeated n body ih =>
    obtain ⟨_, _, _, hbody⟩ := normal_repeated.mp hx
    rw [field] at h
    obtain ⟨z, hz, rfl⟩ := Outcome.map_eq_ok_iff.mp h
    have hs := ih hbody hu hz
    rw [times_eq_repeated (typed_repeated_of_shape hx (typed_field hbody hu hz) hs).normal, shape,
      shape, hs]

end Field

section Cast

/--
A cast that succeeds keeps the number of channels, and leaves no ramp of booleans behind.
-/
theorem of_asType_eq_ok (hx : x.Normal) (h : x.asType t = .ok y) :
    x.sampleType.width = t.width ∧ x.RampsSatisfy fun _ => t.isInterpolable = true := by
  by_cases ht : x.sampleType = t
  . subst ht
    exact ⟨rfl, rampsSatisfy_of_widensTo hx ⟨rfl, fun _ h => h⟩⟩
  . induction x generalizing y with
    | pattern p =>
      rw [asType, if_neg ht] at h
      obtain ⟨q, hq, _⟩ := Outcome.map_eq_ok_iff.mp h
      obtain ⟨_, hw, _⟩ := Outcome.bind_eq_ok_iff.mp hq
      exact ⟨SampleType.checkCast_eq_ok_iff.mp hw, rampsSatisfy_pattern p⟩
    | ramp r =>
      rw [asType, if_neg ht] at h
      obtain ⟨s, hs, _⟩ := Outcome.map_eq_ok_iff.mp h
      obtain ⟨hw, rfl, _⟩ := Ramp.wellFormed_of_cast (normal_ramp.mp hx).1 hs
      obtain ⟨_, hc, _⟩ := Outcome.bind_eq_ok_iff.mp hs
      exact ⟨SampleType.checkCast_eq_ok_iff.mp hc, rampsSatisfy_ramp.mpr hw.isInterpolable⟩
    | concatenated xs ih =>
      obtain ⟨hl, _, hparts⟩ := normal_concatenated.mp hx
      rw [asType, if_neg ht, asTypeAll_eq] at h
      obtain ⟨ys, hys, _⟩ := Outcome.map_eq_ok_iff.mp h
      have hall : ∀ x ∈ xs, x.sampleType.width = t.width
          ∧ x.RampsSatisfy fun _ => t.isInterpolable = true := by
        intro x hm
        obtain ⟨z, _, hz⟩ := Outcome.exists_mem_of_mapM_eq_ok hys hm
        have hp := hparts x hm
        exact ih x hm hp.normal hz (by rw [hp.sampleType]; exact ht)
      obtain ⟨x, hm⟩ := List.exists_mem_of_length_pos (Nat.lt_of_lt_of_le Nat.zero_lt_two hl)
      refine ⟨?_, rampsSatisfy_concatenated.mpr fun x hm => (hall x hm).2⟩
      rw [sampleType_concatenated, ← (hparts x hm).sampleType]
      exact (hall x hm).1
    | repeated n body ih =>
      obtain ⟨_, _, _, hbody⟩ := normal_repeated.mp hx
      rw [asType, if_neg ht] at h
      obtain ⟨z, hz, _⟩ := Outcome.map_eq_ok_iff.mp h
      obtain ⟨hw, hr⟩ := ih hbody hz ht
      exact ⟨hw, rampsSatisfy_repeated.mpr hr⟩

theorem asType_eq_ok_iff (hx : x.Normal) :
    x.asType t = .ok y ↔ (x.sampleType.width = t.width
      ∧ x.RampsSatisfy fun _ => t.isInterpolable = true) ∧ y = recast t x := by
  constructor
  . intro h
    obtain ⟨hw, hr⟩ := of_asType_eq_ok hx h
    exact ⟨⟨hw, hr⟩, Except.ok.inj (h.symm.trans (asType_eq_ok hx hw hr))⟩
  . rintro ⟨⟨hw, hr⟩, rfl⟩
    exact asType_eq_ok hx hw hr

omit [Number α] in
theorem rampsSatisfy_const_iff {P : Prop} :
    (x.RampsSatisfy fun _ => P) ↔ (∀ r, ¬IsNode (ramp r) x) ∨ P := by
  constructor
  . intro h
    by_cases hP : P
    . exact .inr hP
    . exact .inl fun r hr => hP (h r hr)
  . rintro (h | hP) r hr
    . exact absurd hr (h r)
    . exact hP

end Cast

/--
Choosing a channel, casting and naming succeed on the whole tree or not at all, and change nothing
but its leaves.
-/
structure ActsOnLeaves (x : Instruction α) : Prop where
  field {name : String} {y : Instruction α} : x.field name = .ok y → y.shape = x.shape
    ∧ ∃ c, x.toPattern.column name = .ok c ∧ y.toPattern = ⟨.named name c.kind, [c], x.length⟩
  asType {t : SampleType} {y : Instruction α} : x.asType t = .ok y → y.shape = x.shape
    ∧ y.toPattern = ⟨t, List.zipWith Column.cast x.toPattern.columns t.kinds, x.length⟩
  withName {name : String} {y : Instruction α} : x.withName name = .ok y → y.shape = x.shape
    ∧ ∃ c, x.toPattern.columns = [c] ∧ y.toPattern = ⟨.named name c.kind, [c], x.length⟩
  exists_field_iff (name : String) : (∃ y, x.field name = .ok y)
    ↔ ∃ fields, x.sampleType = .record fields ∧ name ∈ fields.map Field.name
  exists_asType_iff (t : SampleType) : (∃ y, x.asType t = .ok y)
    ↔ x.sampleType.width = t.width ∧ ((∀ r, ¬IsNode (ramp r) x) ∨ t.isInterpolable = true)
  exists_withName_iff (name : String) : (∃ y, x.withName name = .ok y) ↔ x.sampleType.width = 1

theorem actsOnLeaves (hx : x.Normal) : ActsOnLeaves x where
  field h := by
    obtain ⟨j, u, hu⟩ := project_of_field hx h
    refine ⟨shape_field hx hu h, ?_⟩
    obtain ⟨z, hz, hp⟩ := exists_field_toPattern hx hu
    cases hz.symm.trans h
    rw [← sampleType_toPattern hx] at hu
    obtain ⟨c, hc, hj, rfl⟩ := Pattern.exists_column (wellFormed_toPattern hx) hu
    exact ⟨c, hc, by rw [hp, hj, length_toPattern hx]⟩
  asType h := by
    obtain ⟨⟨hw, hr⟩, rfl⟩ := (asType_eq_ok_iff hx).mp h
    refine ⟨shape_recast _ x, ?_⟩
    rw [toPattern_recast hx hw hr, Pattern.recast, length_toPattern hx]
  withName h := by
    obtain ⟨kind, hk, rfl⟩ := withName_eq_ok h
    have hkinds := (wellFormed_toPattern hx).kinds
    rw [sampleType_toPattern hx, hk] at hkinds
    obtain ⟨c, hc, rfl⟩ := List.map_eq_singleton_iff.mp hkinds
    refine ⟨shape_relabel x _, c, hc, ?_⟩
    rw [toPattern_relabel (t := .named _ c.kind) hx hk.symm, Pattern.relabel, hc,
      length_toPattern hx]
  exists_field_iff name := by
    rw [← SampleType.exists_project_iff]
    constructor
    . rintro ⟨y, h⟩
      exact project_of_field hx h
    . rintro ⟨j, u, hu⟩
      obtain ⟨y, h, _⟩ := exists_field hx hu
      exact ⟨y, h⟩
  exists_asType_iff t := by
    simp [asType_eq_ok_iff hx, rampsSatisfy_const_iff]
  exists_withName_iff name := by
    rw [← SampleType.length_kinds, List.length_eq_one_iff]
    constructor
    . rintro ⟨y, h⟩
      obtain ⟨kind, hk, _⟩ := withName_eq_ok h
      exact ⟨kind, hk⟩
    . rintro ⟨kind, hk⟩
      exact ⟨x.relabel (.named name kind), by rw [withName, hk]⟩

/--
Two voltages that are held twice, and a ramp of both.
-/
def voltagesThenRamp : Instruction Float :=
  let t : SampleType := .record [⟨"left", .float⟩, ⟨"right", .float⟩]
  concatenated [repeated 2 (pattern ⟨t, [.float [0, 1], .float [2, 3]], 2⟩),
    ramp ⟨t, [1, 3], [4, 0], 3⟩]

theorem normal_voltagesThenRamp : voltagesThenRamp.Normal := by
  have hp : (repeated 2 (pattern ⟨.record [⟨"left", .float⟩, ⟨"right", .float⟩],
      [.float [(0 : Float), 1], .float [2, 3]], 2⟩)).Normal :=
    normal_repeated.mpr ⟨by decide, by decide, by simp,
      normal_pattern.mpr ⟨rfl, by simp [Column.length]⟩⟩
  have hr : (ramp ⟨.record [⟨"left", .float⟩, ⟨"right", .float⟩], [(1 : Float), 3], [4, 0],
      3⟩).Normal := normal_ramp.mpr ⟨⟨rfl, rfl, rfl⟩, by decide⟩
  exact normal_concatenated_pair ⟨hp, by decide, rfl, by simp⟩ ⟨hr, by decide, rfl, by simp⟩
    (by simp [isPattern])

/--
Either voltage is found, but a ramp of voltages is no switch, and two channels have no one name.
-/
theorem actsOnLeaves_voltagesThenRamp :
    (∃ y, voltagesThenRamp.field "right" = .ok y ∧ y.shape
        = .concatenated [0, 4, 7] [.repeated 2 (.pattern 2), .ramp 3])
      ∧ (∃ y, voltagesThenRamp.asType (.record [⟨"up", .float⟩, ⟨"down", .float⟩]) = .ok y)
      ∧ (¬∃ y, voltagesThenRamp.asType (.record [⟨"left", .bool⟩, ⟨"right", .float⟩]) = .ok y)
      ∧ ¬∃ y, voltagesThenRamp.withName "both" = .ok y := by
  have h := actsOnLeaves normal_voltagesThenRamp
  refine ⟨?_, (h.exists_asType_iff _).mpr ⟨rfl, .inr rfl⟩, ?_, ?_⟩
  . obtain ⟨y, hy⟩ := (h.exists_field_iff "right").mpr ⟨_, rfl, by decide⟩
    exact ⟨y, hy, (h.field hy).1⟩
  . rw [h.exists_asType_iff]
    rintro ⟨_, hr | hi⟩
    . exact hr _ (.part (List.mem_cons_of_mem _ List.mem_cons_self) .self)
    . contradiction
  . rw [h.exists_withName_iff]
    decide

end Instruction

end Waveplan
