import Waveplan.Proofs.Instruction.Pattern
import Waveplan.Proofs.Instruction.Source

/-!
This module contains the instructions that are put end to end or repeated: they are in normal form,
they last as long as their parts together, and they play the samples of their parts in order.
-/

namespace Waveplan.Instruction

variable {α : Type}

/--
An instruction in normal form with samples of type `t`.
-/
structure Typed (x : Instruction α) (t : SampleType) : Prop where
  normal : x.Normal
  sampleType : x.sampleType = t

theorem Normal.typed {x : Instruction α} (h : x.Normal) : x.Typed x.sampleType := ⟨h, rfl⟩

theorem Typed.part {t : SampleType} {x : Instruction α} {xs : List (Instruction α)}
    (h : (concatenated xs).Typed t) (hx : x ∈ xs) : x.Typed t :=
  have hp := (normal_concatenated.mp h.normal).2.2 x hx
  ⟨hp.normal, hp.sampleType.trans h.sampleType⟩

theorem Typed.body {t : SampleType} {n : Nat} {x : Instruction α} (h : (repeated n x).Typed t) :
    x.Typed t :=
  ⟨(normal_repeated.mp h.normal).2.2.2, h.sampleType⟩

theorem IsPart.typed {t : SampleType} {x : Instruction α} (h : IsPart t x) : x.Typed t :=
  ⟨h.normal, h.sampleType⟩

theorem typed_pattern {p : Pattern α} (h : p.WellFormed) : (pattern p).Typed p.sampleType :=
  ⟨normal_pattern.mpr h, rfl⟩

theorem typed_empty (t : SampleType) : (pattern (.empty t) : Instruction α).Typed t :=
  ⟨normal_empty t, rfl⟩

def isPattern : Instruction α → Bool
  | pattern _ => true
  | _ => false

theorem arePatternsApart_cons {x : Instruction α} {xs : List (Instruction α)} :
    ArePatternsApart (x :: xs)
      ↔ (x.isPattern → ∀ y ∈ xs.head?, !y.isPattern) ∧ ArePatternsApart xs := by
  cases x with
  | pattern p =>
    cases xs with
    | nil => simp [ArePatternsApart]
    | cons y ys => cases y <;> simp [ArePatternsApart, isPattern]
  | ramp r => simp [ArePatternsApart, isPattern]
  | concatenated ys => simp [ArePatternsApart, isPattern]
  | repeated n body => simp [ArePatternsApart, isPattern]

theorem normal_concatenated_pair {t : SampleType} {x y : Instruction α} (hx : IsPart t x)
    (hy : IsPart t y) (h : x.isPattern → !y.isPattern) : (concatenated [x, y]).Normal := by
  refine normal_concatenated.mpr ⟨Nat.le_refl 2, ?_, ?_⟩
  . rw [arePatternsApart_cons, arePatternsApart_cons]
    simpa [ArePatternsApart] using h
  . rw [headType, hx.sampleType, List.forall_mem_cons, List.forall_mem_singleton]
    exact ⟨hx, hy⟩

theorem totalLength_flatMap_parts (xs : List (Instruction α)) :
    totalLength (xs.flatMap parts) = totalLength xs := by
  induction xs with
  | nil => rfl
  | cons x xs ih =>
    rw [List.flatMap_cons, totalLength_append, ih, totalLength]
    cases x <;> simp [parts, totalLength]

theorem totalLength_filter_not_isEmpty (xs : List (Instruction α)) :
    totalLength (xs.filter fun x => !x.isEmpty) = totalLength xs := by
  induction xs with
  | nil => rfl
  | cons x xs ih =>
    rw [List.filter_cons, totalLength]
    split
    . rw [totalLength, ih]
    . next h =>
      have : x.length = 0 := by simpa [isEmpty] using h
      rw [ih, this, Nat.zero_add]

theorem isPart_of_mem_filter_parts {t : SampleType} {xs : List (Instruction α)}
    (h : ∀ x ∈ xs, x.Typed t) :
    ∀ y ∈ (xs.flatMap parts).filter fun x => !x.isEmpty, IsPart t y := by
  intro y hy
  obtain ⟨hy, hl⟩ := List.mem_filter.mp hy
  obtain ⟨x, hx, hy⟩ := List.mem_flatMap.mp hy
  obtain ⟨hn, ht⟩ := h x hx
  have hpos : 0 < y.length := by simpa [isEmpty, Nat.pos_iff_ne_zero] using hl
  cases x with
  | concatenated ys =>
    obtain ⟨_, _, hys⟩ := normal_concatenated.mp hn
    rw [← ht]
    exact hys y hy
  | pattern p | ramp r | repeated n body =>
    rw [parts, List.mem_singleton] at hy
    . subst hy
      exact ⟨hn, hpos, ht, by simp⟩
    . simp

@[simp]
theorem length_times (x : Instruction α) (n : Nat) : (x.times n).length = n * x.length := by
  unfold times
  split
  . next h =>
    rcases h with rfl | h
    . simp [Pattern.empty]
    . simp [Pattern.empty, h]
  . split
    . next h => rw [h, Nat.one_mul]
    . cases x with
      | repeated m body => simp only [length_repeated, Nat.mul_comm m, Nat.mul_assoc]
      | _ => rfl

theorem typed_times {x : Instruction α} {t : SampleType} (h : x.Typed t) (n : Nat) :
    (x.times n).Typed t := by
  obtain ⟨hx, rfl⟩ := h
  unfold times
  split
  . exact typed_empty _
  . next h₀ =>
    split
    . exact hx.typed
    . next h₁ =>
      cases x with
      | repeated m body =>
        obtain ⟨hm, hb, hne, hx⟩ := normal_repeated.mp hx
        refine ⟨normal_repeated.mpr ⟨?_, hb, hne, hx⟩, rfl⟩
        have : m * 1 ≤ m * n := Nat.mul_le_mul_left m (by omega)
        omega
      | _ => exact ⟨normal_repeated.mpr ⟨by omega, by omega, by simp, hx⟩, rfl⟩

variable [Number α]

theorem mergePatterns_pattern (p : Pattern α) (xs : List (Instruction α)) :
    (∃ q more, mergePatterns xs = pattern q :: more
        ∧ mergePatterns (pattern p :: xs) = pattern (p.append q) :: more)
      ∨ ((∀ y ∈ (mergePatterns xs).head?, !y.isPattern)
        ∧ mergePatterns (pattern p :: xs) = pattern p :: mergePatterns xs) := by
  rw [mergePatterns]
  split
  . next q more h => exact .inl ⟨q, more, h, rfl⟩
  . next h =>
    refine .inr ⟨?_, rfl⟩
    cases hm : mergePatterns xs with
    | nil => simp
    | cons y ys =>
      cases y with
      | pattern q => exact absurd hm (h q ys)
      | _ => simp [isPattern]

theorem mergePatterns_of_not_isPattern {x : Instruction α} (h : !x.isPattern)
    (xs : List (Instruction α)) : mergePatterns (x :: xs) = x :: mergePatterns xs := by
  cases x with
  | pattern p => contradiction
  | _ => rw [mergePatterns]; simp

theorem totalLength_mergePatterns (xs : List (Instruction α)) :
    totalLength (mergePatterns xs) = totalLength xs := by
  induction xs with
  | nil => rfl
  | cons x xs ih =>
    rw [totalLength, ← ih]
    cases x with
    | pattern p =>
      rcases mergePatterns_pattern p xs with ⟨q, more, hq, h⟩ | ⟨_, h⟩
      . rw [h, hq]
        simp [totalLength, Pattern.append, Nat.add_assoc]
      . rw [h, totalLength]
    | _ => rw [mergePatterns_of_not_isPattern rfl, totalLength]

theorem arePatternsApart_mergePatterns (xs : List (Instruction α)) :
    ArePatternsApart (mergePatterns xs) := by
  induction xs with
  | nil => simp [mergePatterns, ArePatternsApart]
  | cons x xs ih =>
    cases x with
    | pattern p =>
      rcases mergePatterns_pattern p xs with ⟨q, more, hq, h⟩ | ⟨hp, h⟩
      . rw [hq, arePatternsApart_cons] at ih
        rw [h, arePatternsApart_cons]
        exact ih
      . rw [h, arePatternsApart_cons]
        exact ⟨fun _ => hp, ih⟩
    | _ =>
      rw [mergePatterns_of_not_isPattern rfl, arePatternsApart_cons]
      exact ⟨fun h => by contradiction, ih⟩

theorem isPart_append {t : SampleType} {p q : Pattern α} (hp : IsPart t (pattern p))
    (hq : IsPart t (pattern q)) : IsPart t (pattern (p.append q)) where
  normal := by
    apply normal_pattern.mpr
    apply Pattern.wellFormed_append (normal_pattern.mp hp.normal) (normal_pattern.mp hq.normal)
    exact hp.sampleType.trans hq.sampleType.symm
  length_pos := by
    have := hp.length_pos
    simp [Pattern.append] at this ⊢
    omega
  sampleType := hq.sampleType
  ne_concatenated := by simp

theorem isPart_of_mem_mergePatterns {t : SampleType} {xs : List (Instruction α)}
    (h : ∀ x ∈ xs, IsPart t x) : ∀ y ∈ mergePatterns xs, IsPart t y := by
  induction xs with
  | nil => simp [mergePatterns]
  | cons x xs ih =>
    obtain ⟨hx, h⟩ := List.forall_mem_cons.mp h
    have ih := ih h
    cases x with
    | pattern p =>
      rcases mergePatterns_pattern p xs with ⟨q, more, hq, hm⟩ | ⟨_, hm⟩
      . rw [hq, List.forall_mem_cons] at ih
        rw [hm, List.forall_mem_cons]
        exact ⟨isPart_append hx ih.1, ih.2⟩
      . rw [hm, List.forall_mem_cons]
        exact ⟨hx, ih⟩
    | _ =>
      rw [mergePatterns_of_not_isPattern rfl, List.forall_mem_cons]
      exact ⟨hx, ih⟩

theorem join_eq (t : SampleType) (xs : List (Instruction α)) :
    ∃ ys, ys = mergePatterns ((xs.flatMap parts).filter fun x => !x.isEmpty)
      ∧ totalLength ys = totalLength xs
      ∧ ((ys = [] ∧ join t xs = pattern (.empty t)) ∨ (∃ y, ys = [y] ∧ join t xs = y)
        ∨ (2 ≤ ys.length ∧ join t xs = concatenated ys)) := by
  refine ⟨_, rfl, ?_, ?_⟩
  . rw [totalLength_mergePatterns, totalLength_filter_not_isEmpty, totalLength_flatMap_parts]
  . unfold join
    split
    . next h => exact .inl ⟨h, rfl⟩
    . next y h => exact .inr (.inl ⟨y, h, rfl⟩)
    . next ys h₀ h₁ =>
      refine .inr (.inr ⟨?_, rfl⟩)
      match hm : mergePatterns ((xs.flatMap parts).filter fun x => !x.isEmpty) with
      | [] => exact absurd hm h₀
      | [y] => exact absurd hm (h₁ y)
      | _ :: _ :: _ => simp

theorem typed_join {t : SampleType} {xs : List (Instruction α)} (h : ∀ x ∈ xs, x.Typed t) :
    (join t xs).Typed t := by
  obtain ⟨ys, rfl, _, hj⟩ := join_eq t xs
  have hp := isPart_of_mem_mergePatterns (isPart_of_mem_filter_parts h)
  rcases hj with ⟨_, hj⟩ | ⟨y, hy, hj⟩ | ⟨hl, hj⟩
  . rw [hj]
    exact typed_empty t
  . rw [hj]
    exact (hp y (by simp [hy])).typed
  . rw [hj]
    have ht := headType_eq (List.ne_nil_of_length_pos (by omega)) fun y hy => (hp y hy).sampleType
    refine ⟨normal_concatenated.mpr ⟨hl, arePatternsApart_mergePatterns _, ?_⟩, ht⟩
    rw [ht]
    exact hp

@[simp]
theorem length_join (t : SampleType) (xs : List (Instruction α)) :
    (join t xs).length = totalLength xs := by
  obtain ⟨ys, _, hl, hj⟩ := join_eq t xs
  rw [← hl]
  rcases hj with ⟨h, hj⟩ | ⟨y, h, hj⟩ | ⟨_, hj⟩
  . rw [h, hj]
    rfl
  . rw [h, hj]
    simp [totalLength]
  . rw [hj]
    rfl

section Size

omit [Number α] in
theorem totalStoredSize_append (xs ys : List (Instruction α)) :
    totalStoredSize (xs ++ ys) = totalStoredSize xs + totalStoredSize ys := by
  induction xs with
  | nil => simp [totalStoredSize]
  | cons x xs ih => rw [List.cons_append, totalStoredSize, ih, totalStoredSize, Nat.add_assoc]

omit [Number α] in
theorem totalStoredSize_flatMap_parts (xs : List (Instruction α)) :
    totalStoredSize (xs.flatMap parts) = totalStoredSize xs := by
  induction xs with
  | nil => rfl
  | cons x xs ih =>
    rw [List.flatMap_cons, totalStoredSize_append, ih, totalStoredSize]
    cases x <;> simp [parts, totalStoredSize, storedSize]

omit [Number α] in
theorem totalStoredSize_filter_le (f : Instruction α → Bool) (xs : List (Instruction α)) :
    totalStoredSize (xs.filter f) ≤ totalStoredSize xs := by
  induction xs with
  | nil => exact Nat.le_refl _
  | cons x xs ih =>
    rw [List.filter_cons, totalStoredSize]
    split
    . rw [totalStoredSize]
      omega
    . omega

theorem totalStoredSize_mergePatterns (xs : List (Instruction α)) :
    totalStoredSize (mergePatterns xs) = totalStoredSize xs := by
  induction xs with
  | nil => rfl
  | cons x xs ih =>
    rw [totalStoredSize, ← ih]
    cases x with
    | pattern p =>
      rcases mergePatterns_pattern p xs with ⟨q, more, hq, h⟩ | ⟨_, h⟩
      . rw [h, hq]
        simp [totalStoredSize, storedSize, Pattern.append, Nat.add_assoc]
      . rw [h, totalStoredSize]
    | _ => rw [mergePatterns_of_not_isPattern rfl, totalStoredSize]

theorem length_mergePatterns_le (xs : List (Instruction α)) :
    (mergePatterns xs).length ≤ xs.length := by
  induction xs with
  | nil => exact Nat.le_refl _
  | cons x xs ih =>
    rw [List.length_cons]
    cases x with
    | pattern p =>
      rcases mergePatterns_pattern p xs with ⟨q, more, hq, h⟩ | ⟨_, h⟩
      . rw [hq] at ih
        rw [h, List.length_cons]
        rw [List.length_cons] at ih
        omega
      . rw [h, List.length_cons]
        omega
    | _ =>
      rw [mergePatterns_of_not_isPattern rfl, List.length_cons]
      omega

/--
Nothing is stored twice when instructions are put end to end.
-/
theorem storedSize_join_le (t : SampleType) (xs : List (Instruction α)) :
    (join t xs).storedSize ≤ totalStoredSize xs := by
  obtain ⟨ys, hys, _, hj⟩ := join_eq t xs
  have hle : totalStoredSize ys ≤ totalStoredSize xs := by
    rw [hys, totalStoredSize_mergePatterns, ← totalStoredSize_flatMap_parts xs]
    exact totalStoredSize_filter_le _ _
  rcases hj with ⟨_, hj⟩ | ⟨y, h, hj⟩ | ⟨_, hj⟩
  . rw [hj]
    exact Nat.zero_le _
  . rw [hj]
    simpa [h, totalStoredSize] using hle
  . rw [hj, storedSize]
    exact hle

theorem length_parts_join_le {t : SampleType} {xs : List (Instruction α)}
    (h : ∀ x ∈ xs, x.Typed t) :
    (join t xs).parts.length ≤ Nat.max 1 (xs.flatMap parts).length := by
  obtain ⟨ys, hys, _, hj⟩ := join_eq t xs
  have hle : ys.length ≤ (xs.flatMap parts).length := by
    rw [hys]
    exact Nat.le_trans (length_mergePatterns_le _) (List.length_filter_le _ _)
  have hone : ∀ y : Instruction α, (∀ zs, y ≠ concatenated zs) → y.parts.length = 1 := by
    intro y hy
    cases y with
    | concatenated zs => exact absurd rfl (hy zs)
    | _ => rfl
  rcases hj with ⟨_, hj⟩ | ⟨y, hy, hj⟩ | ⟨_, hj⟩
  . rw [hj, hone _ (by simp)]
    exact Nat.le_max_left _ _
  . rw [hj, hone y]
    . exact Nat.le_max_left _ _
    . apply (isPart_of_mem_mergePatterns (isPart_of_mem_filter_parts h) y _).ne_concatenated
      rw [← hys, hy]
      exact List.mem_cons_self
  . rw [hj]
    exact Nat.le_trans hle (Nat.le_max_right _ _)

end Size

theorem sourceAtParts_append (xs ys : List (Instruction α)) (i : Nat) :
    sourceAtParts (xs ++ ys) i
      = if i < totalLength xs then sourceAtParts xs i
        else sourceAtParts ys (i - totalLength xs) := by
  induction xs generalizing i with
  | nil => simp [totalLength]
  | cons x xs ih =>
    rw [List.cons_append, sourceAtParts, sourceAtParts, ih, totalLength]
    split
    . rw [if_pos (by omega)]
    . split
      . rw [if_pos (by omega)]
      . rw [if_neg (by omega), Nat.sub_add_eq]

theorem sourceAtParts_singleton {x : Instruction α} {i : Nat} (h : i < x.length) :
    sourceAtParts [x] i = x.sourceAt i := by
  rw [sourceAtParts, if_pos h]

theorem sourceAtParts_flatMap_parts (xs : List (Instruction α)) (i : Nat) :
    sourceAtParts (xs.flatMap parts) i = sourceAtParts xs i := by
  induction xs generalizing i with
  | nil => rfl
  | cons x xs ih =>
    rw [List.flatMap_cons, sourceAtParts_append, ih, sourceAtParts]
    cases x with
    | concatenated ys =>
      simp only [parts, sourceAt, length_concatenated]
      rfl
    | _ =>
      simp only [parts, totalLength, Nat.add_zero]
      split
      . next h => exact sourceAtParts_singleton h
      . rfl

theorem sourceAtParts_filter_not_isEmpty (xs : List (Instruction α)) (i : Nat) :
    sourceAtParts (xs.filter fun x => !x.isEmpty) i = sourceAtParts xs i := by
  induction xs generalizing i with
  | nil => rfl
  | cons x xs ih =>
    rw [List.filter_cons, sourceAtParts]
    split
    . rw [sourceAtParts, ih]
    . next h =>
      have : x.length = 0 := by simpa [isEmpty] using h
      rw [ih, this, if_neg (Nat.not_lt_zero i), Nat.sub_zero]

theorem sourceAtParts_mergePatterns {t : SampleType} {xs : List (Instruction α)}
    (h : ∀ x ∈ xs, IsPart t x) (i : Nat) :
    sourceAtParts (mergePatterns xs) i = sourceAtParts xs i := by
  induction xs generalizing i with
  | nil => rfl
  | cons x xs ih =>
    obtain ⟨hx, hxs⟩ := List.forall_mem_cons.mp h
    rw [sourceAtParts, ← ih hxs]
    cases x with
    | pattern p =>
      rcases mergePatterns_pattern p xs with ⟨q, more, hq, hm⟩ | ⟨_, hm⟩
      . have hqp := isPart_of_mem_mergePatterns hxs (pattern q) (by simp [hq])
        have hpq := Pattern.sample_append (normal_pattern.mp hx.normal)
          (normal_pattern.mp hqp.normal) (hx.sampleType.trans hqp.sampleType.symm) i
        rw [hm, hq, sourceAtParts, sourceAtParts, sourceAt, hpq]
        simp only [length_pattern, Pattern.append, sourceAt]
        by_cases hp : i < p.length
        . rw [if_pos (Nat.lt_add_right _ hp), if_pos hp, if_pos hp]
        . rw [if_neg hp, if_neg hp, Nat.sub_add_eq]
          by_cases hi : i < p.length + q.length
          . rw [if_pos hi, if_pos (by omega)]
          . rw [if_neg hi, if_neg (by omega)]
      . rw [hm, sourceAtParts]
    | _ => rw [mergePatterns_of_not_isPattern rfl, sourceAtParts]

theorem sourceAt_join {t : SampleType} {xs : List (Instruction α)} (h : ∀ x ∈ xs, x.Typed t)
    {i : Nat} (hi : i < totalLength xs) : (join t xs).sourceAt i = sourceAtParts xs i := by
  obtain ⟨ys, hys, hl, hj⟩ := join_eq t xs
  have hs : sourceAtParts ys i = sourceAtParts xs i := by
    rw [hys, sourceAtParts_mergePatterns (isPart_of_mem_filter_parts h),
      sourceAtParts_filter_not_isEmpty, sourceAtParts_flatMap_parts]
  rw [← hl] at hi
  rw [← hs]
  rcases hj with ⟨h, _⟩ | ⟨y, h, hj⟩ | ⟨_, hj⟩
  . simp [h, totalLength] at hi
  . rw [h] at hi ⊢
    rw [hj, sourceAtParts_singleton (by simpa [totalLength] using hi)]
  . rw [hj, sourceAt]

theorem sourceAt_times {x : Instruction α} {n i : Nat} (h : i < n * x.length) :
    (x.times n).sourceAt i = x.sourceAt (i % x.length) := by
  unfold times
  split
  . next h₀ =>
    rcases h₀ with rfl | h₀
    . simp at h
    . simp [h₀] at h
  . split
    . next h₁ => rw [Nat.mod_eq_of_lt (by rw [h₁] at h; omega)]
    . cases x with
      | repeated m body => simp only [sourceAt, length_repeated, Nat.mod_mul_left_mod]
      | _ => simp only [sourceAt]

theorem typed_tile {x : Instruction α} {t : SampleType} (h : x.Typed t) (n : Nat) :
    (x.tile n).Typed t := by
  rw [← h.sampleType]
  apply typed_join
  intro y hy
  rw [List.eq_of_mem_replicate hy]
  exact h.normal.typed

@[simp]
theorem length_tile (x : Instruction α) (n : Nat) : (x.tile n).length = n * x.length := by
  simp [tile, totalLength_eq]

theorem sourceAtParts_replicate {x : Instruction α} {n i : Nat} (h : i < n * x.length) :
    sourceAtParts (List.replicate n x) i = x.sourceAt (i % x.length) := by
  induction n generalizing i with
  | zero => simp at h
  | succ n ih =>
    rw [List.replicate_succ, sourceAtParts]
    rw [Nat.succ_mul] at h
    split
    . next hi => rw [Nat.mod_eq_of_lt hi]
    . rw [ih (by omega), ← Nat.mod_eq_sub_mod (by omega)]

theorem sourceAt_tile {x : Instruction α} (hx : x.Normal) {n i : Nat} (h : i < n * x.length) :
    (x.tile n).sourceAt i = x.sourceAt (i % x.length) := by
  rw [← sourceAtParts_replicate h]
  apply sourceAt_join
  . intro y hy
    rw [List.eq_of_mem_replicate hy]
    exact hx.typed
  . simpa [totalLength_eq] using h

section Samples

theorem sampleAtParts_singleton {x : Instruction α} {i : Nat} (h : i < x.length) :
    sampleAtParts [x] i = x.sampleAt i := by
  rw [sampleAtParts_eq, sourceAtParts_singleton h, sampleAt_eq]

theorem sampleAt_join {t : SampleType} {xs : List (Instruction α)} (h : ∀ x ∈ xs, x.Typed t)
    {i : Nat} (hi : i < totalLength xs) : (join t xs).sampleAt i = sampleAtParts xs i := by
  rw [sampleAt_eq, sourceAt_join h hi, sampleAtParts_eq]

theorem sampleAt_times {x : Instruction α} {n i : Nat} (h : i < n * x.length) :
    (x.times n).sampleAt i = x.sampleAt (i % x.length) := by
  rw [sampleAt_eq, sourceAt_times h, sampleAt_eq]

theorem sampleAt_tile {x : Instruction α} (hx : x.Normal) {n i : Nat} (h : i < n * x.length) :
    (x.tile n).sampleAt i = x.sampleAt (i % x.length) := by
  rw [sampleAt_eq, sourceAt_tile hx h, sampleAt_eq]

end Samples

end Waveplan.Instruction
