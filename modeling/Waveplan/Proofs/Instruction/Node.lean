import Waveplan.Proofs.Instruction.Concatenate

/-!
This module contains the nodes of a tree, and which ramps are nodes of instructions that are put
end to end or repeated.
-/

namespace Waveplan.Instruction

variable {α : Type}

/--
That an instruction is a node of a tree.
-/
inductive IsNode (y : Instruction α) : Instruction α → Prop where
  | self : IsNode y y
  | part {x : Instruction α} {xs : List (Instruction α)} (h : x ∈ xs) (hy : IsNode y x) :
    IsNode y (concatenated xs)
  | body {x : Instruction α} (n : Nat) (hy : IsNode y x) : IsNode y (repeated n x)

section Nodes

variable {x y : Instruction α}

theorem isNode_pattern {p : Pattern α} : IsNode y (pattern p) ↔ y = pattern p := by
  constructor
  . intro h
    cases h
    rfl
  . rintro rfl
    exact .self

theorem isNode_ramp {r : Ramp α} : IsNode y (ramp r) ↔ y = ramp r := by
  constructor
  . intro h
    cases h
    rfl
  . rintro rfl
    exact .self

theorem isNode_concatenated {xs : List (Instruction α)} :
    IsNode y (concatenated xs) ↔ y = concatenated xs ∨ ∃ x ∈ xs, IsNode y x := by
  constructor
  . intro h
    cases h with
    | self => exact .inl rfl
    | part hx hy => exact .inr ⟨_, hx, hy⟩
  . rintro (rfl | ⟨x, hx, hy⟩)
    . exact .self
    . exact .part hx hy

theorem isNode_repeated {n : Nat} {body : Instruction α} :
    IsNode y (repeated n body) ↔ y = repeated n body ∨ IsNode y body := by
  constructor
  . intro h
    cases h with
    | self => exact .inl rfl
    | body _ hy => exact .inr hy
  . rintro (rfl | hy)
    . exact .self
    . exact .body n hy

theorem typed_of_isNode {t : SampleType} (hx : x.Typed t) (h : IsNode y x) : y.Typed t := by
  induction h with
  | self => exact hx
  | part hm _ ih => exact ih (hx.part hm)
  | body n _ ih => exact ih hx.body

theorem normal_of_isNode (hx : x.Normal) (h : IsNode y x) : y.Normal :=
  (typed_of_isNode hx.typed h).normal

section Position

variable [Number α]

theorem exists_start_of_mem {xs : List (Instruction α)} (h : x ∈ xs) :
    ∃ start, start + x.length ≤ totalLength xs
      ∧ ∀ i < x.length, sampleAtParts xs (start + i) = x.sampleAt i := by
  induction xs with
  | nil => contradiction
  | cons z zs ih =>
    rcases List.mem_cons.mp h with rfl | h
    . refine ⟨0, by rw [totalLength]; omega, fun i hi => ?_⟩
      rw [sampleAtParts, Nat.zero_add, if_pos hi]
    . obtain ⟨start, hl, hs⟩ := ih h
      refine ⟨z.length + start, by rw [totalLength]; omega, fun i hi => ?_⟩
      rw [sampleAtParts, if_neg (by omega), ← hs i hi]
      congr 1
      omega

/--
Every node of a tree is played from some tick on.
-/
theorem exists_start_of_isNode (hx : x.Normal) (h : IsNode y x) :
    ∃ start, start + y.length ≤ x.length
      ∧ ∀ i < y.length, x.sampleAt (start + i) = y.sampleAt i := by
  induction h with
  | self => exact ⟨0, by omega, fun i _ => by rw [Nat.zero_add]⟩
  | part hm _ ih =>
    obtain ⟨start, hl, hs⟩ := ih ((normal_concatenated.mp hx).2.2 _ hm).normal
    obtain ⟨before, hlm, hsm⟩ := exists_start_of_mem hm
    refine ⟨before + start, by rw [length_concatenated]; omega, fun i hi => ?_⟩
    rw [sampleAt, Nat.add_assoc, hsm _ (by omega), hs i hi]
  | @body z n _ ih =>
    -- the first time that the body is played
    obtain ⟨hn, _, _, hbody⟩ := normal_repeated.mp hx
    obtain ⟨start, hl, hs⟩ := ih hbody
    have hle : z.length ≤ n * z.length := Nat.le_mul_of_pos_left _ (by omega)
    refine ⟨start, by rw [length_repeated]; omega, fun i hi => ?_⟩
    rw [sampleAt, Nat.mod_eq_of_lt (by omega), hs i hi]

end Position

end Nodes

/--
A property of all ramps of a tree.
-/
def RampsSatisfy (Q : Ramp α → Prop) (x : Instruction α) : Prop := ∀ r, IsNode (ramp r) x → Q r

section Ramps

variable {Q : Ramp α → Prop}

theorem RampsSatisfy.imp {P : Ramp α → Prop} {x : Instruction α} (h : x.RampsSatisfy P)
    (hPQ : ∀ r, P r → Q r) : x.RampsSatisfy Q :=
  fun r hr => hPQ r (h r hr)

theorem rampsSatisfy_pattern (p : Pattern α) : (pattern p).RampsSatisfy Q := by
  simp [RampsSatisfy, isNode_pattern]

theorem rampsSatisfy_ramp {r : Ramp α} : (ramp r).RampsSatisfy Q ↔ Q r := by
  simp [RampsSatisfy, isNode_ramp]

theorem rampsSatisfy_concatenated {xs : List (Instruction α)} :
    (concatenated xs).RampsSatisfy Q ↔ ∀ x ∈ xs, x.RampsSatisfy Q := by
  simp only [RampsSatisfy, isNode_concatenated, reduceCtorEq, false_or]
  constructor
  . intro h x hx r hr
    exact h r ⟨x, hx, hr⟩
  . rintro h r ⟨x, hx, hr⟩
    exact h x hx r hr

theorem rampsSatisfy_repeated {n : Nat} {body : Instruction α} :
    (repeated n body).RampsSatisfy Q ↔ body.RampsSatisfy Q := by
  simp [RampsSatisfy, isNode_repeated]

theorem rampsSatisfy_times {x : Instruction α} (h : x.RampsSatisfy Q) (n : Nat) :
    (x.times n).RampsSatisfy Q := by
  unfold times
  split
  . exact rampsSatisfy_pattern _
  . split
    . exact h
    . cases x with
      | repeated m body => exact rampsSatisfy_repeated.mpr (rampsSatisfy_repeated.mp h)
      | _ => exact rampsSatisfy_repeated.mpr h

theorem rampsSatisfy_parts {x : Instruction α} (h : x.RampsSatisfy Q) :
    ∀ y ∈ x.parts, y.RampsSatisfy Q := by
  cases x with
  | concatenated xs => exact rampsSatisfy_concatenated.mp h
  | _ =>
    rw [parts]
    . exact List.forall_mem_singleton.mpr h
    . simp

variable [Number α]

theorem rampsSatisfy_mergePatterns {xs : List (Instruction α)} (h : ∀ x ∈ xs, x.RampsSatisfy Q) :
    ∀ y ∈ mergePatterns xs, y.RampsSatisfy Q := by
  induction xs with
  | nil => simp [mergePatterns]
  | cons x xs ih =>
    obtain ⟨hx, h⟩ := List.forall_mem_cons.mp h
    have ih := ih h
    cases x with
    | pattern p =>
      rcases mergePatterns_pattern p xs with ⟨q, more, hq, hm⟩ | ⟨_, hm⟩
      . rw [hq, List.forall_mem_cons] at ih
        rw [hm, List.forall_mem_cons]
        exact ⟨rampsSatisfy_pattern _, ih.2⟩
      . rw [hm, List.forall_mem_cons]
        exact ⟨hx, ih⟩
    | _ =>
      rw [mergePatterns_of_not_isPattern rfl, List.forall_mem_cons]
      exact ⟨hx, ih⟩

theorem rampsSatisfy_join (t : SampleType) {xs : List (Instruction α)}
    (h : ∀ x ∈ xs, x.RampsSatisfy Q) : (join t xs).RampsSatisfy Q := by
  have hparts : ∀ y ∈ (xs.flatMap parts).filter fun x => !x.isEmpty, y.RampsSatisfy Q := by
    intro y hy
    obtain ⟨x, hx, hy⟩ := List.mem_flatMap.mp (List.mem_filter.mp hy).1
    exact rampsSatisfy_parts (h x hx) y hy
  have hmerged := rampsSatisfy_mergePatterns hparts
  obtain ⟨ys, rfl, _, ⟨_, hj⟩ | ⟨y, hy, hj⟩ | ⟨_, hj⟩⟩ := join_eq t xs
  . rw [hj]
    exact rampsSatisfy_pattern _
  . rw [hj]
    exact hmerged y (by simp [hy])
  . rw [hj]
    exact rampsSatisfy_concatenated.mpr hmerged

theorem rampsSatisfy_tile {x : Instruction α} (h : x.RampsSatisfy Q) (n : Nat) :
    (x.tile n).RampsSatisfy Q := by
  apply rampsSatisfy_join
  intro y hy
  rw [List.eq_of_mem_replicate hy]
  exact h

omit [Number α] in
theorem rampsSatisfy_hold (value : Scalar α) (n : Nat) : (hold value n).RampsSatisfy Q :=
  rampsSatisfy_times (rampsSatisfy_pattern _) n

omit [Number α] in
theorem rampsSatisfy_linear {a b : α} {n : Nat} (h : Q ⟨.float, [a], [b], n⟩) :
    (linear a b n).RampsSatisfy Q := by
  unfold linear
  split
  . exact rampsSatisfy_pattern _
  . exact rampsSatisfy_ramp.mpr h

theorem rampsSatisfy_asType {N : Nat} {x y : Instruction α} {t : SampleType}
    (hx : x.RampsSatisfy (·.length ≤ N)) (h : x.asType t = .ok y) :
    y.RampsSatisfy (·.length ≤ N) := by
  induction x generalizing y with
  | pattern p =>
    rw [asType] at h
    split at h
    . cases h
      exact hx
    . obtain ⟨q, _, rfl⟩ := Outcome.map_eq_ok_iff.mp h
      exact rampsSatisfy_pattern q
  | ramp r =>
    rw [asType] at h
    split at h
    . cases h
      exact hx
    . obtain ⟨s, hs, rfl⟩ := Outcome.map_eq_ok_iff.mp h
      obtain ⟨_, _, hs⟩ := Outcome.bind_eq_ok_iff.mp hs
      split at hs
      . cases hs
        exact rampsSatisfy_ramp.mpr (rampsSatisfy_ramp.mp hx)
      . contradiction
  | concatenated xs ih =>
    rw [asType] at h
    split at h
    . cases h
      exact hx
    . obtain ⟨ys, hys, rfl⟩ := Outcome.map_eq_ok_iff.mp h
      rw [asTypeAll_eq, Outcome.mapM_eq_ok_iff] at hys
      have hxs := rampsSatisfy_concatenated.mp hx
      exact rampsSatisfy_join t (Outcome.forall_mem_of_forall₂ (Outcome.forall₂_imp_of_mem hys
        fun x hm y hy => ih x hm (hxs x hm) hy))
  | repeated n body ih =>
    rw [asType] at h
    split at h
    . cases h
      exact hx
    . obtain ⟨z, hz, rfl⟩ := Outcome.map_eq_ok_iff.mp h
      exact rampsSatisfy_times (ih (rampsSatisfy_repeated.mp hx) hz) n

end Ramps

section Normal

variable {x : Instruction α}

theorem rampsSatisfy_of_bool {Q : Ramp α → Prop} (hx : x.Typed .bool) : x.RampsSatisfy Q := by
  induction x with
  | pattern p => exact rampsSatisfy_pattern p
  | ramp r =>
    have hr := (normal_ramp.mp hx.normal).1.isInterpolable
    rw [← sampleType_ramp, hx.sampleType] at hr
    contradiction
  | concatenated xs ih => exact rampsSatisfy_concatenated.mpr fun x hm => ih x hm (hx.part hm)
  | repeated n body ih => exact rampsSatisfy_repeated.mpr (ih hx.body)

theorem length_le_totalLength {xs : List (Instruction α)} (h : x ∈ xs) :
    x.length ≤ totalLength xs := by
  induction xs with
  | nil => contradiction
  | cons y ys ih =>
    rw [totalLength]
    rcases List.mem_cons.mp h with rfl | h
    . exact Nat.le_add_right _ _
    . exact Nat.le_add_left_of_le (ih h)

/--
No ramp of an instruction is longer than the instruction.
-/
theorem rampsSatisfy_length_le (hx : x.Normal) : x.RampsSatisfy (·.length ≤ x.length) := by
  induction x with
  | pattern p => exact rampsSatisfy_pattern p
  | ramp r => exact rampsSatisfy_ramp.mpr (Nat.le_of_eq (length_ramp r).symm)
  | concatenated xs ih =>
    obtain ⟨_, _, hparts⟩ := normal_concatenated.mp hx
    refine rampsSatisfy_concatenated.mpr fun x hm => ?_
    have hle := length_le_totalLength hm
    exact (ih x hm (hparts x hm).normal).imp fun _ hr => Nat.le_trans hr hle
  | repeated n body ih =>
    obtain ⟨hn, _, _, hbody⟩ := normal_repeated.mp hx
    have hle : body.length ≤ n * body.length := Nat.le_mul_of_pos_left _ (by omega)
    exact rampsSatisfy_repeated.mpr ((ih hbody).imp fun _ hr => Nat.le_trans hr hle)

end Normal

end Waveplan.Instruction
