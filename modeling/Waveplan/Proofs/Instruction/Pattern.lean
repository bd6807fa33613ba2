import Mathlib.Data.List.Zip
import Waveplan.Proofs.Outcome
import Waveplan.Instruction.Normal

/-!
This module contains the samples of patterns that are cut, repeated, put end to end or side by side,
and that two well-formed patterns with the same samples are equal.
-/

namespace Waveplan

variable {α : Type}

theorem getElem?_flatten_replicate {β : Type} {l : List β} {n i : Nat} (h : i < n * l.length) :
    (List.replicate n l).flatten[i]? = l[i % l.length]? := by
  induction n generalizing i with
  | zero => simp at h
  | succ n ih =>
    rw [List.replicate_succ, List.flatten_cons, List.getElem?_append]
    rw [Nat.succ_mul] at h
    split
    . next hi => rw [Nat.mod_eq_of_lt hi]
    . next hi =>
      rw [ih (by omega), ← Nat.mod_eq_sub_mod (by omega)]

namespace Column

@[simp]
theorem kind_get [Number α] (c : Column α) (i : Nat) : (c.get i).kind = c.kind := by
  cases c <;> rfl

theorem length_slice (c : Column α) {start stop : Nat} (h : stop ≤ c.length) :
    (c.slice start stop).length = stop - start := by
  cases c <;> simp_all [slice, length]

theorem length_tile (c : Column α) (n : Nat) : (c.tile n).length = n * c.length := by
  cases c <;> simp [tile, length]

variable [Number α]

@[simp]
theorem kind_cons (value : Scalar α) (c : Column α) : (c.cons value).kind = c.kind := by
  cases c <;> rfl

@[simp]
theorem length_cons (value : Scalar α) (c : Column α) : (c.cons value).length = c.length + 1 := by
  cases c <;> rfl

theorem get_slice (c : Column α) {start stop i : Nat} (h : start + i < stop) :
    (c.slice start stop).get i = c.get (start + i) := by
  cases c <;>
    simp [slice, get, List.getD_eq_getElem?_getD, List.getElem?_drop, h]

theorem get_tile (c : Column α) {n i : Nat} (h : i < n * c.length) :
    (c.tile n).get i = c.get (i % c.length) := by
  cases c with
  | bool values =>
    simp [tile, get, length, List.getD_eq_getElem?_getD, getElem?_flatten_replicate h]
  | float values =>
    simp [tile, get, length, List.getD_eq_getElem?_getD, getElem?_flatten_replicate h]

theorem get_append (c d : Column α) (h : c.kind = d.kind) (i : Nat) :
    (c.append d).get i = if i < c.length then c.get i else d.get (i - c.length) := by
  cases c <;> cases d <;>
    simp_all [append, get, kind, length, List.getD_eq_getElem?_getD, List.getElem?_append] <;>
    split <;> rfl

theorem ext_get {c d : Column α} (hk : c.kind = d.kind) (hl : c.length = d.length)
    (h : ∀ i, i < c.length → c.get i = d.get i) : c = d := by
  cases c with
  | bool values =>
    cases d with
    | bool others =>
      congr 1
      apply List.ext_getElem hl
      intro i h₁ h₂
      simpa [get, h₁, h₂] using h i h₁
    | float others => cases hk
  | float values =>
    cases d with
    | bool others => cases hk
    | float others =>
      congr 1
      apply List.ext_getElem hl
      intro i h₁ h₂
      simpa [get, h₁, h₂] using h i h₁

end Column

namespace Pattern

theorem WellFormed.length_columns {p : Pattern α} (h : p.WellFormed) :
    p.columns.length = p.sampleType.width := by
  have := congrArg List.length h.kinds
  simpa using this

section Shape

variable {p q : Pattern α} {t : SampleType}

theorem length_columns_eq (hp : p.WellFormed) (hq : q.WellFormed)
    (ht : p.sampleType = q.sampleType) : p.columns.length = q.columns.length := by
  rw [hp.length_columns, hq.length_columns, ht]

theorem kind_columns_eq (hp : p.WellFormed) (hq : q.WellFormed)
    (ht : p.sampleType = q.sampleType) (i : Nat) (h₁ : i < p.columns.length)
    (h₂ : i < q.columns.length) : p.columns[i].kind = q.columns[i].kind := by
  have hk : p.columns.map Column.kind = q.columns.map Column.kind := by
    rw [hp.kinds, hq.kinds, ht]
  have := List.getElem_of_eq hk (by simpa using h₁)
  rwa [List.getElem_map, List.getElem_map] at this

theorem wellFormed_slice (h : p.WellFormed) {start stop : Nat} (hs : stop ≤ p.length) :
    (p.slice start stop).WellFormed where
  kinds := by simpa [slice, Function.comp_def] using h.kinds
  lengths c hc := by
    obtain ⟨d, hd, rfl⟩ := List.mem_map.mp hc
    rw [Column.length_slice _ (by rw [h.lengths d hd]; exact hs)]
    rfl

theorem wellFormed_tile (h : p.WellFormed) (n : Nat) : (p.tile n).WellFormed where
  kinds := by simpa [tile, Function.comp_def] using h.kinds
  lengths c hc := by
    obtain ⟨d, hd, rfl⟩ := List.mem_map.mp hc
    rw [Column.length_tile, h.lengths d hd, Nat.mul_comm]
    rfl

theorem wellFormed_relabel (h : p.WellFormed) (ht : t.kinds = p.sampleType.kinds) :
    (p.relabel t).WellFormed where
  kinds := h.kinds.trans ht.symm
  lengths := h.lengths

theorem wellFormed_ofBools (values : List Bool) : (ofBools values : Pattern α).WellFormed where
  kinds := rfl
  lengths c hc := by
    rw [List.mem_singleton.mp hc]
    rfl

theorem wellFormed_ofFloats (values : List α) : (ofFloats values).WellFormed where
  kinds := rfl
  lengths c hc := by
    rw [List.mem_singleton.mp hc]
    rfl

theorem wellFormed_ofColumns {columns : List (Column α)} (h : ofColumns t columns = .ok p) :
    p.WellFormed := by
  unfold ofColumns at h
  split at h
  . contradiction
  . next hk =>
    dsimp at h
    split at h
    . contradiction
    . next hf =>
      cases h
      constructor
      . simpa using hk
      . intro c hc
        simpa using List.find?_eq_none.mp hf c hc

theorem stack_eq_ok (hl : p.length = q.length) (ht : p.sampleType.merge q.sampleType = .ok t) :
    p.stack q = .ok ⟨t, p.columns ++ q.columns, p.length⟩ := by
  simp [stack, hl, ht, bind, Except.bind]

end Shape

end Pattern

theorem SampleType.project_eq_ok {t u : SampleType} {name : String} {i : Nat}
    (h : t.project name = .ok (i, u)) :
    ∃ fields, t = .record fields ∧ u = .record fields[i]?.toList := by
  obtain ⟨j, _, h⟩ := Outcome.bind_eq_ok_iff.mp h
  cases t with
  | scalar => contradiction
  | record fields =>
    cases h
    exact ⟨fields, rfl, rfl⟩

theorem SampleType.kinds_merge {l r t : SampleType} (h : l.merge r = .ok t) :
    t.kinds = l.kinds ++ r.kinds := by
  cases l with
  | scalar => contradiction
  | record left =>
    cases r with
    | scalar => contradiction
    | record right =>
      unfold merge at h
      dsimp at h
      split at h
      . cases h
        simp [kinds]
      . contradiction

namespace Pattern

variable {p q r : Pattern α} {t : SampleType}

theorem wellFormed_stack (hp : p.WellFormed) (hq : q.WellFormed) (h : p.stack q = .ok r) :
    r.WellFormed := by
  unfold stack at h
  split at h
  . contradiction
  . next hl =>
    obtain ⟨t, ht, h⟩ := Outcome.bind_eq_ok_iff.mp h
    cases h
    constructor
    . rw [List.map_append, hp.kinds, hq.kinds, SampleType.kinds_merge ht]
    . intro c hc
      rcases List.mem_append.mp hc with hc | hc
      . exact hp.lengths c hc
      . rw [hq.lengths c hc]
        exact (not_not.mp hl).symm

theorem wellFormed_field {name : String} (hp : p.WellFormed) (h : p.field name = .ok q) :
    q.WellFormed := by
  obtain ⟨⟨i, t⟩, ht, h⟩ := Outcome.bind_eq_ok_iff.mp h
  cases h
  constructor
  . obtain ⟨fields, hf, rfl⟩ := SampleType.project_eq_ok ht
    have := congrArg (·[i]?.toList) hp.kinds
    simp only [hf, SampleType.kinds, List.getElem?_map] at this
    simpa [SampleType.kinds, Option.toList_map] using this
  . intro c hc
    exact hp.lengths c (List.mem_of_getElem? (Option.mem_toList.mp hc))

theorem wellFormed_empty (t : SampleType) : (empty t : Pattern α).WellFormed :=
  Instruction.normal_empty t

section Conversion

variable [Number α]

theorem wellFormed_cast (hp : p.WellFormed) (h : p.cast t = .ok q) : q.WellFormed := by
  obtain ⟨_, ht, h⟩ := Outcome.bind_eq_ok_iff.mp h
  cases h
  have hw : p.columns.length = t.kinds.length := by
    rw [hp.length_columns, SampleType.length_kinds]
    exact SampleType.checkCast_eq_ok_iff.mp ht
  constructor
  . apply List.ext_getElem
    . simp [hw]
    . simp
  . intro c hc
    obtain ⟨i, hi, rfl⟩ := List.mem_iff_getElem.mp hc
    simp only [List.getElem_zipWith, Column.length_cast]
    exact hp.lengths _ (List.getElem_mem _)

theorem wellFormed_append (hp : p.WellFormed) (hq : q.WellFormed)
    (ht : p.sampleType = q.sampleType) : (p.append q).WellFormed := by
  have hw := length_columns_eq hp hq ht
  constructor
  . rw [append, ← hq.kinds]
    apply List.ext_getElem
    . simp [hw]
    . simp
  . intro c hc
    obtain ⟨i, hi, rfl⟩ := List.mem_iff_getElem.mp hc
    simp only [append, List.getElem_zipWith, Column.length_append]
    rw [hp.lengths _ (List.getElem_mem _), hq.lengths _ (List.getElem_mem _)]

theorem wellFormed_cons {columns : List (Column α)} {values : List (Scalar α)} {n : Nat}
    (hp : (⟨t, columns, n⟩ : Pattern α).WellFormed) (hv : values.length = t.width) :
    (⟨t, List.zipWith Column.cons values columns, n + 1⟩ : Pattern α).WellFormed := by
  have hw : values.length = columns.length := hv.trans hp.length_columns.symm
  constructor
  . rw [← hp.kinds]
    apply List.ext_getElem
    . simp [hw]
    . simp
  . intro c hc
    obtain ⟨i, hi, rfl⟩ := List.mem_iff_getElem.mp hc
    simp only [List.getElem_zipWith, Column.length_cons]
    rw [hp.lengths _ (List.getElem_mem _)]

theorem wellFormed_ofSamples {samples : List (Sample α)} (h : ofSamples t samples = .ok p) :
    p.WellFormed := by
  unfold ofSamples at h
  split at h
  . contradiction
  . next hf =>
    cases h
    have hw : ∀ s ∈ samples, s.width = t.width := by simpa using hf
    clear hf
    induction samples with
    | nil => exact wellFormed_empty t
    | cons s samples ih =>
      obtain ⟨hs, hw⟩ := List.forall_mem_cons.mp hw
      exact wellFormed_cons (ih hw) hs

theorem wellFormed_constant {sample : Sample α} {n : Nat} (h : constant t sample n = .ok p) :
    p.WellFormed := by
  obtain ⟨q, hq, h⟩ := Outcome.bind_eq_ok_iff.mp h
  cases h
  exact wellFormed_tile (wellFormed_ofSamples hq) n

end Conversion

section Samples

variable [Number α]

theorem sample_slice (p : Pattern α) {start stop i : Nat} (h : start + i < stop) :
    (p.slice start stop).sample i = p.sample (start + i) := by
  simp [sample, slice, Column.get_slice _ h]

theorem sample_tile (hp : p.WellFormed) {n i : Nat} (h : i < n * p.length) :
    (p.tile n).sample i = p.sample (i % p.length) := by
  simp only [sample, tile, List.map_map, Sample.mk.injEq]
  apply List.map_congr_left
  intro c hc
  rw [← hp.lengths c hc] at h ⊢
  exact Column.get_tile c h

@[simp]
theorem sample_relabel (p : Pattern α) (t : SampleType) (i : Nat) :
    (p.relabel t).sample i = p.sample i := rfl

theorem sample_append (hp : p.WellFormed) (hq : q.WellFormed) (ht : p.sampleType = q.sampleType)
    (i : Nat) :
    (p.append q).sample i = if i < p.length then p.sample i else q.sample (i - p.length) := by
  have hw := length_columns_eq hp hq ht
  have hk := kind_columns_eq hp hq ht
  have hl (j : Nat) (hj : j < p.columns.length) := hp.lengths _ (List.getElem_mem hj)
  split
  all_goals
    next hi =>
      simp only [sample, append, Sample.mk.injEq]
      apply List.ext_getElem
      . simp [hw]
      . intro j h₁ h₂
        have hj : j < p.columns.length := by simp at h₁; omega
        simp [Column.get_append _ _ (hk j hj (hw ▸ hj)), hl j hj, hi]

theorem sample_stack (hl : p.length = q.length) (ht : p.sampleType.merge q.sampleType = .ok t)
    (h : p.stack q = .ok r) (i : Nat) :
    r.sample i = ⟨(p.sample i).values ++ (q.sample i).values⟩ := by
  rw [stack_eq_ok hl ht] at h
  cases h
  simp [sample]

theorem sample_field {name : String} {j : Nat} (ht : p.sampleType.project name = .ok (j, t))
    (h : p.field name = .ok q) (i : Nat) :
    q.sample i = ⟨(p.sample i).values[j]?.toList⟩ := by
  rw [field, ht] at h
  cases h
  simp [sample, Option.toList_map]

theorem ext_sample (hp : p.WellFormed) (hq : q.WellFormed) (ht : p.sampleType = q.sampleType)
    (hl : p.length = q.length) (h : ∀ i, i < p.length → p.sample i = q.sample i) : p = q := by
  have hw := length_columns_eq hp hq ht
  have hc : p.columns = q.columns := by
    apply List.ext_getElem hw
    intro j h₁ h₂
    have hlp := hp.lengths _ (List.getElem_mem h₁)
    have hlq := hq.lengths _ (List.getElem_mem h₂)
    apply Column.ext_get
    . exact kind_columns_eq hp hq ht j h₁ h₂
    . rw [hlp, hlq, hl]
    . intro i hi
      have := congrArg Sample.values (h i (by rw [← hlp]; exact hi))
      simpa [sample] using List.getElem_of_eq this (by simpa [sample] using h₁)
  cases p
  cases q
  simp_all

end Samples

end Pattern

end Waveplan
