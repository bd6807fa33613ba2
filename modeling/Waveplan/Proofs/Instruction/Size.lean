import Mathlib.Tactic.Ring
import Waveplan.Proofs.Instruction.Rows

/-!
This module contains how much is stored for a slice. A slice only copies what surrounds an end of it
that lies inside of a repetition, so that what is stored grows with the depth of the tree for each
such end, however often anything is repeated.
-/

namespace Waveplan.Instruction

variable {α : Type} [Number α] {x : Instruction α} {start stop : Nat}

omit [Number α] in
theorem depth_le_maxDepth {xs : List (Instruction α)} (h : x ∈ xs) : x.depth ≤ maxDepth xs := by
  induction xs with
  | nil => contradiction
  | cons y ys ih =>
    rw [maxDepth]
    rcases List.mem_cons.mp h with rfl | h
    . exact Nat.le_max_left _ _
    . exact Nat.le_trans (ih h) (Nat.le_max_right _ _)

omit [Number α] in
theorem storedSize_times_le (x : Instruction α) (n : Nat) :
    (x.times n).storedSize ≤ x.storedSize := by
  unfold times
  split
  . exact Nat.zero_le _
  . split
    . exact Nat.le_refl _
    . cases x <;> exact Nat.le_refl _

/--
How many of the two ends of a slice lie inside of an instruction of some length.
-/
def innerEnds (length start stop : Nat) : Nat :=
  (if start = 0 then 0 else 1) + if stop = length then 0 else 1

theorem innerEnds_le (length start stop : Nat) : innerEnds length start stop ≤ 2 := by
  unfold innerEnds
  split <;> split <;> omega

theorem totalStoredSize_subParts_le {xs : List (Instruction α)} {d : Nat}
    (h : ∀ x ∈ xs, ∀ start stop, start < stop → stop ≤ x.length →
      (x.sub start stop).storedSize ≤ (innerEnds x.length start stop * d + 1) * x.storedSize)
    (hs : stop ≤ totalLength xs) :
    totalStoredSize (subParts xs start stop)
      ≤ (innerEnds (totalLength xs) start stop * d + 1) * totalStoredSize xs := by
  induction xs generalizing start stop with
  | nil => simp [subParts, totalStoredSize]
  | cons x xs ih =>
    obtain ⟨hx, h⟩ := List.forall_mem_cons.mp h
    rw [totalLength] at hs ⊢
    have hmin : Nat.min stop x.length = min stop x.length := rfl
    -- an end inside of a part is inside of the whole list, which therefore has no fewer of them
    have hfirst : totalStoredSize (if start < x.length ∧ start < stop
        then [x.sub start (Nat.min stop x.length)] else [])
        ≤ (innerEnds (x.length + totalLength xs) start stop * d + 1) * x.storedSize := by
      split
      . next hl =>
        have := hx _ _ (Nat.lt_min.mpr ⟨hl.2, hl.1⟩) (Nat.min_le_right stop x.length)
        rw [totalStoredSize, totalStoredSize, Nat.add_zero]
        refine Nat.le_trans this ?_
        gcongr
        unfold innerEnds
        split_ifs <;> omega
      . exact Nat.zero_le _
    have hrest : totalStoredSize (if x.length < stop
        then subParts xs (start - x.length) (stop - x.length) else [])
        ≤ (innerEnds (x.length + totalLength xs) start stop * d + 1) * totalStoredSize xs := by
      split
      . refine Nat.le_trans (ih h (by omega)) ?_
        gcongr
        unfold innerEnds
        split_ifs <;> omega
      . exact Nat.zero_le _
    simp only [subParts, totalStoredSize_append]
    rw [totalStoredSize, Nat.mul_add]
    exact Nat.add_le_add hfirst hrest

/--
A cut repetition stores one body and the slices of the bodies that its ends lie inside of.
-/
theorem totalStoredSize_cutPeriods_le {body : Instruction α} {n s : Nat} (hpos : 0 < body.length)
    (h : ∀ start stop, start < stop → stop ≤ body.length →
      innerEnds body.length start stop ≤ 1 → (body.sub start stop).storedSize ≤ s) :
    totalStoredSize (cutPeriods body start stop)
      ≤ body.storedSize + innerEnds (n * body.length) start stop * s := by
  have hwhole := storedSize_times_le body
    (stop / body.length - (start + body.length - 1) / body.length)
  have h₁ := Nat.mod_lt start hpos
  have h₂ := Nat.mod_lt stop hpos
  have hrest : totalStoredSize (if start % body.length = 0 then []
      else [body.sub (start % body.length) body.length]) ≤ (if start = 0 then 0 else 1) * s := by
    split
    . exact Nat.zero_le _
    . next hmod =>
      have hne : start ≠ 0 := by
        rintro rfl
        exact hmod (Nat.zero_mod _)
      rw [if_neg hne, Nat.one_mul]
      exact h _ _ h₁ (Nat.le_refl _) (by rw [innerEnds, if_pos rfl]; split <;> omega)
  have hbeginning : totalStoredSize (if stop % body.length = 0 then []
      else [body.sub 0 (stop % body.length)]) ≤ (if stop = n * body.length then 0 else 1) * s := by
    split
    . exact Nat.zero_le _
    . next hmod =>
      have hne : stop ≠ n * body.length := by
        rintro rfl
        exact hmod (Nat.mul_mod_left _ _)
      rw [if_neg hne, Nat.one_mul]
      exact h _ _ (by omega) (by omega) (by rw [innerEnds, if_pos rfl]; split <;> omega)
  simp only [cutPeriods, totalStoredSize_append, totalStoredSize]
  rw [innerEnds, Nat.add_mul]
  omega

theorem innerEnds_samePeriod_le {n period : Nat} (h : 0 < period) (hs : start < stop)
    (hd : start / period = (stop - 1) / period) :
    innerEnds period (start % period) (stop - start / period * period)
      ≤ innerEnds (n * period) start stop := by
  have hstart : start = 0 → start % period = 0 := by
    rintro rfl
    exact Nat.zero_mod _
  have hstop : stop = n * period → stop - start / period * period = period := by
    rintro rfl
    obtain ⟨m, rfl⟩ : ∃ m, n = m + 1 := Nat.exists_eq_succ_of_ne_zero (by rintro rfl; omega)
    have hlast : ((m + 1) * period - 1) / period = m := by
      rw [Nat.add_mul, Nat.one_mul, Nat.add_sub_assoc h, Nat.mul_comm, Nat.mul_add_div h,
        Nat.div_eq_of_lt (by omega), Nat.add_zero]
    rw [hd, hlast, Nat.add_mul, Nat.one_mul, Nat.add_sub_cancel_left]
  unfold innerEnds
  split_ifs <;> omega

/--
What is stored for a slice grows with the depth for each end inside of the instruction, and not with
the counts of repetitions.
-/
theorem storedSize_sub_le (hx : x.Normal) (h : start < stop) (hs : stop ≤ x.length) :
    (x.sub start stop).storedSize
      ≤ (innerEnds x.length start stop * x.depth + 1) * x.storedSize := by
  have hself (y : Instruction α) (k : Nat) : y.storedSize ≤ (k + 1) * y.storedSize :=
    Nat.le_mul_of_pos_left _ (Nat.succ_pos k)
  induction x generalizing start stop with
  | pattern p =>
    rw [length_pattern] at hs
    rw [sub]
    split
    . exact hself _ _
    . refine Nat.le_trans ?_ (hself _ _)
      exact Nat.le_trans (Nat.sub_le _ _) hs
  | ramp r =>
    rw [sub]
    split
    . exact hself _ _
    . exact hself (ramp r) _
  | concatenated xs ih =>
    obtain ⟨_, _, hparts⟩ := normal_concatenated.mp hx
    rw [sub]
    split
    . exact hself _ _
    . refine Nat.le_trans (storedSize_join_le _ _) ?_
      rw [length_concatenated] at hs ⊢
      rw [depth, storedSize]
      refine Nat.le_trans (totalStoredSize_subParts_le (d := maxDepth xs) ?_ hs) ?_
      . intro x hm start stop h hs
        have hd := depth_le_maxDepth hm
        refine Nat.le_trans (ih x hm (hparts x hm).normal h hs) ?_
        gcongr
      . gcongr
        omega
  | repeated n body ih =>
    obtain ⟨_, hpos, _, hbody⟩ := normal_repeated.mp hx
    by_cases he : start = 0 ∧ stop = (repeated n body).length
    . rw [sub, if_pos he]
      exact hself _ _
    . rw [sub_repeated he, length_repeated, depth, storedSize]
      -- the ends lie in one period, or each in a period that is sliced at this end only
      split
      . next hd =>
        obtain ⟨_, h₂, h₃⟩ := samePeriod_eq hpos h hd
        refine Nat.le_trans (ih hbody h₂ h₃) ?_
        gcongr
        . exact innerEnds_samePeriod_le hpos h hd
        . omega
      . refine Nat.le_trans (storedSize_join_le _ _) ?_
        refine Nat.le_trans (totalStoredSize_cutPeriods_le (n := n)
          (s := (body.depth + 1) * body.storedSize) hpos fun start stop h hs he => ?_) ?_
        . refine Nat.le_trans (ih hbody h hs) ?_
          gcongr
          exact Nat.le_trans (Nat.mul_le_mul_right _ he) (Nat.le_of_eq (Nat.one_mul _))
        . apply Nat.le_of_eq
          ring

/--
Slicing never writes an instruction out: what is stored for a slice is bounded by what is stored for
the instruction and by its depth.
-/
theorem storedSize_slice_le (hx : x.Normal) (i j : Int) :
    (∀ y, x.slice i j = .ok y → y.storedSize ≤ (2 * x.depth + 1) * x.storedSize)
      ∧ (IsBound x.length i → IsBound x.length j → ∃ y, x.slice i j = .ok y
        ∧ IsPiece x (tickOf x.length i).toNat (tickOf x.length j).toNat y) := by
  refine ⟨fun y hy => ?_, exists_slice hx⟩
  obtain ⟨start, stop, _, hstop, rfl⟩ := sliceBy_eq_ok hy
  split
  . exact Nat.zero_le _
  . next h =>
    refine Nat.le_trans (storedSize_sub_le hx (Nat.lt_of_not_le h) (sliceBound_le hstop)) ?_
    gcongr
    exact innerEnds_le _ _ _

/--
Eight million ticks, cut within the first period and within the last one.
-/
theorem storedSize_slice_le_plateausThenRamp :
    ∃ y, (repeated 1000000 plateausThenRamp).slice 5 (-3) = .ok y ∧ y.length = 7999992
      ∧ y.storedSize ≤ 21 := by
  have hx : (repeated 1000000 plateausThenRamp).Normal :=
    normal_repeated.mpr ⟨by decide, by decide, by simp [plateausThenRamp], normal_plateausThenRamp⟩
  obtain ⟨hle, hslice⟩ := storedSize_slice_le hx 5 (-3)
  obtain ⟨y, hy, hpiece⟩ := hslice (by decide) (by decide)
  exact ⟨y, hy, hpiece.length, hle y hy⟩

end Waveplan.Instruction
