import Waveplan.Proofs.Instruction.Columns

/-!
This module contains that any number of instructions with different channels can be stacked, and
that every channel is found again in the result.
-/

namespace Waveplan.Instruction

variable {α : Type} [Number α]

/--
An instruction that plays the channels of others of `n` ticks side by side, in order.
-/
structure IsStackAll (n : Nat) (fields : List (List Field)) (xs : List (Instruction α))
    (s : Instruction α) : Prop where
  typed : s.Typed (.record fields.flatten)
  length : s.length = n
  ramps {Q : Ramp α → Prop} : (∀ x ∈ xs, x.RampsSatisfy Q) → s.RampsSatisfy Q
  columns {Q : Ramp α → Prop} : IsDivisible Q → (∀ x ∈ xs, x.RampsSatisfy Q) →
    s.toPattern.columns = xs.flatMap fun x => x.toPattern.columns

theorem isStackAll_singleton {n : Nat} {l : List Field} {x : Instruction α}
    (hx : x.Typed (.record l)) (hl : x.length = n) : IsStackAll n [l] [x] x where
  typed := by simpa using hx
  length := hl
  ramps h := h x List.mem_cons_self
  columns _ _ := by simp

theorem exists_stack_of_isStackAll {n : Nat} {ls rs : List (List Field)}
    {xs ys : List (Instruction α)} {a b : Instruction α} (ha : IsStackAll n ls xs a)
    (hb : IsStackAll n rs ys b) (hd : ∀ l ∈ ls, ∀ r ∈ rs, SampleType.AreDisjoint l r) :
    ∃ s, stack a b = .ok s ∧ IsStackAll n (ls ++ rs) (xs ++ ys) s := by
  have hfd : SampleType.AreDisjoint ls.flatten rs.flatten := by
    intro f hf g hg
    obtain ⟨l, hl, hf⟩ := List.mem_flatten.mp hf
    obtain ⟨r, hr, hg⟩ := List.mem_flatten.mp hg
    exact hd l hl r hr f hf g hg
  have hl : a.length = b.length := ha.length.trans hb.length.symm
  have ht : a.sampleType.merge b.sampleType = .ok (.record (ls ++ rs).flatten) := by
    rw [ha.typed.sampleType, hb.typed.sampleType, SampleType.merge_record hfd,
      List.flatten_append]
  obtain ⟨s, hs, hst⟩ := exists_stack ha.typed.normal hb.typed.normal hl ht
  refine ⟨s, hs, hst.typed, hst.length.trans ha.length, ?_, ?_⟩
  . intro Q _
    exact hst.ramps.imp fun _ h => h.elim
  . intro Q hQ hxs
    obtain ⟨hxs, hys⟩ := List.forall_mem_append.mp hxs
    rw [hst.columns hQ ha.typed.normal hb.typed.normal (ha.ramps hxs) (hb.ramps hys) hl ht,
      ha.columns hQ hxs, hb.columns hQ hys, List.flatMap_append]

theorem exists_stackAll_go {n : Nat} (fuel : Nat) {fields : List (List Field)}
    {xs : List (Instruction α)} (hfuel : xs.length ≤ fuel) (hne : xs ≠ [])
    (hx : List.Forall₂ (fun l x => x.Typed (.record l) ∧ x.length = n) fields xs)
    (hd : fields.Pairwise SampleType.AreDisjoint) :
    ∃ s, stackAll.go fuel xs = .ok s ∧ IsStackAll n fields xs s := by
  induction fuel generalizing fields xs with
  | zero => exact absurd (List.length_eq_zero_iff.mp (Nat.le_zero.mp hfuel)) hne
  | succ fuel ih =>
    match xs, hne, hx with
    | [x], _, .cons h .nil => exact ⟨x, rfl, isStackAll_singleton h.1 h.2⟩
    | x :: y :: xs, _, hx =>
      -- both halves are shorter than the whole, and neither is empty
      have hlen : (x :: y :: xs).length = xs.length + 2 := rfl
      generalize hz : x :: y :: xs = zs at *
      have hhalf : 0 < zs.length / 2 ∧ zs.length / 2 < zs.length := by omega
      have hd' := hd
      rw [← List.take_append_drop (zs.length / 2) fields, List.pairwise_append] at hd'
      obtain ⟨a, ha, hsa⟩ := ih (by rw [List.length_take]; omega)
        (List.ne_nil_of_length_pos (by rw [List.length_take]; omega))
        (List.forall₂_take (zs.length / 2) hx) hd'.1
      obtain ⟨b, hb, hsb⟩ := ih (by rw [List.length_drop]; omega)
        (List.ne_nil_of_length_pos (by rw [List.length_drop]; omega))
        (List.forall₂_drop (zs.length / 2) hx) hd'.2.1
      obtain ⟨s, hs, hst⟩ := exists_stack_of_isStackAll hsa hsb hd'.2.2
      rw [List.take_append_drop, List.take_append_drop] at hst
      refine ⟨s, ?_, hst⟩
      rw [← hz] at ha hb ⊢
      rw [stackAll.go, ha]
      . simp only [bind, Except.bind, hb]
        exact hs
      . simp
      . simp

theorem exists_stackAll {n : Nat} {fields : List (List Field)} {xs : List (Instruction α)}
    (hne : xs ≠ []) (hx : List.Forall₂ (fun l x => x.Typed (.record l) ∧ x.length = n) fields xs)
    (hd : fields.Pairwise SampleType.AreDisjoint) :
    ∃ s, stackAll xs = .ok s ∧ IsStackAll n fields xs s :=
  exists_stackAll_go xs.length (Nat.le_refl _) hne hx hd

section Names

theorem getElem?_flatMap {β γ : Type} {f : β → List γ} {xs : List β}
    (h : ∀ x ∈ xs, (f x).length = 1) {k : Nat} (hk : k < xs.length) :
    (xs.flatMap f)[k]?.toList = f xs[k] := by
  induction xs generalizing k with
  | nil => contradiction
  | cons x xs ih =>
    obtain ⟨hx, h⟩ := List.forall_mem_cons.mp h
    obtain ⟨y, hy⟩ := List.length_eq_one_iff.mp hx
    rw [List.flatMap_cons, hy, List.cons_append, List.nil_append]
    cases k with
    | zero => exact hy.symm
    | succ k => exact ih h (Nat.lt_of_succ_lt_succ hk)

theorem project_of_nodup {fields : List Field} (hd : (fields.map Field.name).Nodup) {k : Nat}
    (hk : k < fields.length) :
    (SampleType.record fields).project fields[k].name = .ok (k, .record [fields[k]]) := by
  apply SampleType.project_record.mpr
  constructor
  . rw [List.findIdx?_eq_some_iff_getElem]
    refine ⟨hk, by simp, ?_⟩
    intro j hj
    have hne := List.pairwise_iff_getElem.mp (List.pairwise_map.mp hd) j k (by omega) hk hj
    simpa using hne
  . simp [hk]

theorem exists_stackAll_named {n : Nat} {fields : List Field} {xs : List (Instruction α)}
    (hne : xs ≠ []) (hx : List.Forall₂ (fun f x => x.Typed (.record [f]) ∧ x.length = n) fields xs)
    (hd : (fields.map Field.name).Nodup) :
    ∃ s, stackAll xs = .ok s ∧ s.Typed (.record fields) ∧ s.length = n
      ∧ ∀ {Q : Ramp α → Prop}, IsDivisible Q → (∀ x ∈ xs, x.RampsSatisfy Q) →
        List.Forall₂ (fun f x => ∃ y, s.field f.name = .ok y ∧ y.toPattern = x.toPattern)
          fields xs := by
  have hdis : (fields.map fun f => [f]).Pairwise SampleType.AreDisjoint := by
    rw [List.pairwise_map]
    apply (List.pairwise_map.mp hd).imp
    intro f g hfg
    simpa [SampleType.AreDisjoint] using hfg
  obtain ⟨s, hs, hst⟩ := exists_stackAll hne (List.forall₂_map_left_iff.mpr hx) hdis
  have hty := hst.typed
  rw [← List.flatMap_def, List.flatMap_singleton'] at hty
  refine ⟨s, hs, hty, hst.length, ?_⟩
  intro Q hQ hr
  have hc := hst.columns hQ hr
  rw [List.forall₂_iff_get]
  refine ⟨hx.length_eq, ?_⟩
  intro k h₁ h₂
  rw [List.get_eq_getElem, List.get_eq_getElem]
  have hu := project_of_nodup hd h₁
  obtain ⟨y, hy, hyp⟩ := exists_field_toPattern hty.normal (hty.sampleType ▸ hu)
  obtain ⟨hxt, hxl⟩ := hx.get h₁ h₂
  change xs[k].Typed (.record [fields[k]]) at hxt
  change xs[k].length = n at hxl
  have hone : ∀ x ∈ xs, x.toPattern.columns.length = 1 :=
    Outcome.forall_mem_of_forall₂ (hx.imp fun f x h =>
      length_columns_toPattern h.1.normal h.1.sampleType)
  refine ⟨y, hy, ?_⟩
  have hsl : s.toPattern.length = n := (length_toPattern hty.normal).trans hst.length
  have hxp : xs[k].toPattern = ⟨.record [fields[k]], xs[k].toPattern.columns, n⟩ := by
    rw [← hxt.sampleType, ← sampleType_toPattern hxt.normal, ← hxl, ← length_toPattern hxt.normal]
  rw [hyp, hxp, hc, hsl, getElem?_flatMap hone h₂]

end Names

end Waveplan.Instruction
