import Waveplan.Proofs.Instruction.Join
import Waveplan.Instruction.Stack

/-!
This module contains the bounds at which instructions are cut: strictly ascending ticks that begin
and end where the instruction does. Pieces between such bounds make up the whole.
-/

namespace Waveplan

section Repetitions

variable {β : Type}

theorem eraseRepsBy_loop_eq (r : β → β → Bool) (a : β) (l acc : List β) :
    List.eraseRepsBy.loop r a l acc = acc.reverse ++ List.eraseRepsBy.loop r a l [] := by
  induction l generalizing a acc with
  | nil => simp [List.eraseRepsBy.loop]
  | cons b l ih =>
    rw [List.eraseRepsBy.loop, List.eraseRepsBy.loop]
    split
    . rw [ih]
    . rw [ih b (a :: acc), ih b [a]]
      simp

variable [BEq β]

theorem eraseReps_cons_cons (a b : β) (l : List β) :
    (a :: b :: l).eraseReps
      = if a == b then (a :: l).eraseReps else a :: (b :: l).eraseReps := by
  simp only [List.eraseReps, List.eraseRepsBy, List.eraseRepsBy.loop]
  split
  . next h => rw [if_pos h]
  . next h =>
    rw [h, eraseRepsBy_loop_eq, if_neg Bool.false_ne_true]
    rfl

theorem mem_eraseReps [LawfulBEq β] {x : β} {l : List β} : x ∈ l.eraseReps ↔ x ∈ l := by
  match l with
  | [] => rfl
  | [a] => rfl
  | a :: b :: l =>
    rw [eraseReps_cons_cons]
    split
    . next h =>
      rw [mem_eraseReps, ← beq_iff_eq.mp h]
      simp
    . rw [List.mem_cons, mem_eraseReps (l := b :: l), List.mem_cons (a := x) (b := a)]

theorem length_eraseReps_le (l : List β) : l.eraseReps.length ≤ l.length := by
  match l with
  | [] => exact Nat.le_refl _
  | [a] => exact Nat.le_refl _
  | a :: b :: l =>
    rw [eraseReps_cons_cons]
    split
    . exact Nat.le_succ_of_le (length_eraseReps_le (a :: l))
    . exact Nat.succ_le_succ (length_eraseReps_le (b :: l))

theorem pairwise_eraseReps {l : List Nat} (h : l.Pairwise (· ≤ ·)) :
    l.eraseReps.Pairwise (· < ·) := by
  match l, h with
  | [], _ => exact .nil
  | [a], _ => exact List.pairwise_singleton _ a
  | a :: b :: l, h =>
    obtain ⟨ha, h⟩ := List.pairwise_cons.mp h
    rw [eraseReps_cons_cons]
    split
    . apply pairwise_eraseReps
      exact List.pairwise_cons.mpr ⟨fun c hc => ha c (List.mem_cons_of_mem _ hc), h.of_cons⟩
    . next hne =>
      apply List.pairwise_cons.mpr
      refine ⟨fun c hc => ?_, pairwise_eraseReps h⟩
      have hab := ha b List.mem_cons_self
      have : a ≠ b := by simpa using hne
      rcases List.mem_cons.mp (mem_eraseReps.mp hc) with rfl | hc
      . omega
      . have := (List.pairwise_cons.mp h).1 c hc
        omega

end Repetitions

theorem pairwise_mergeSort_le (l : List Nat) :
    (l.mergeSort fun m n => m ≤ n).Pairwise (· ≤ ·) := by
  have := @List.pairwise_mergeSort Nat (fun m n => decide (m ≤ n))
    (fun a b c h₁ h₂ => by simp at h₁ h₂ ⊢; omega) (fun a b => by simp; omega) l
  exact this.imp of_decide_eq_true

/--
Strictly ascending bounds of the ticks from `start` to `stop`.
-/
structure IsPartition (start stop : Nat) (bounds : List Nat) : Prop where
  ascending : bounds.Pairwise (· < ·)
  start_mem : start ∈ bounds
  stop_mem : stop ∈ bounds
  start_le : ∀ i ∈ bounds, start ≤ i
  le_stop : ∀ i ∈ bounds, i ≤ stop

namespace IsPartition

variable {start stop : Nat} {as bs : List Nat}

theorem eraseReps (h : as.Pairwise (· ≤ ·)) (hs : start ∈ as) (he : stop ∈ as)
    (hle : ∀ i ∈ as, start ≤ i ∧ i ≤ stop) : IsPartition start stop as.eraseReps where
  ascending := pairwise_eraseReps h
  start_mem := mem_eraseReps.mpr hs
  stop_mem := mem_eraseReps.mpr he
  start_le i hi := (hle i (mem_eraseReps.mp hi)).1
  le_stop i hi := (hle i (mem_eraseReps.mp hi)).2

theorem mergeBounds (ha : IsPartition start stop as) (hb : IsPartition start stop bs) :
    IsPartition start stop (Instruction.mergeBounds as bs) := by
  have hle {l : List Nat} (h : l.Pairwise (· < ·)) : l.Pairwise fun x y => decide (x ≤ y) :=
    h.imp fun h => decide_eq_true (Nat.le_of_lt h)
  apply eraseReps
  . have := @List.pairwise_merge Nat (fun x y => decide (x ≤ y))
      (fun a b c h₁ h₂ => by simp at h₁ h₂ ⊢; omega) (fun a b => by simp; omega)
      as bs (hle ha.ascending) (hle hb.ascending)
    exact this.imp of_decide_eq_true
  . exact List.mem_merge.mpr (.inl ha.start_mem)
  . exact List.mem_merge.mpr (.inl ha.stop_mem)
  . intro i hi
    rcases List.mem_merge.mp hi with hi | hi
    . exact ⟨ha.start_le i hi, ha.le_stop i hi⟩
    . exact ⟨hb.start_le i hi, hb.le_stop i hi⟩

theorem singleton_or_cons (h : IsPartition start stop bs) :
    (bs = [start] ∧ start = stop)
      ∨ ∃ next rest, bs = start :: next :: rest ∧ start < next
        ∧ IsPartition next stop (next :: rest) := by
  match bs, h with
  | [], h => exact absurd h.start_mem (by simp)
  | [b], h =>
    left
    rw [List.mem_singleton.mp h.start_mem, List.mem_singleton.mp h.stop_mem]
    exact ⟨rfl, rfl⟩
  | b :: next :: rest, h =>
    right
    obtain ⟨hb, ha⟩ := List.pairwise_cons.mp h.ascending
    have hnext := hb next List.mem_cons_self
    have hstart : start = b := by
      have := h.start_le b List.mem_cons_self
      rcases List.mem_cons.mp h.start_mem with rfl | hs
      . rfl
      . have := hb start hs
        omega
    subst hstart
    refine ⟨next, rest, rfl, hnext, ha, List.mem_cons_self, ?_, ?_, ?_⟩
    . rcases List.mem_cons.mp h.stop_mem with rfl | hs
      . have := h.le_stop next (List.mem_cons_of_mem _ List.mem_cons_self)
        omega
      . exact hs
    . intro i hi
      rcases List.mem_cons.mp hi with rfl | hi
      . exact Nat.le_refl _
      . exact Nat.le_of_lt ((List.pairwise_cons.mp ha).1 i hi)
    . exact fun i hi => h.le_stop i (List.mem_cons_of_mem _ hi)

theorem mem_intervals (h : IsPartition start stop bs) :
    ∀ cut ∈ Instruction.intervals bs, start ≤ cut.1 ∧ cut.1 < cut.2 ∧ cut.2 ≤ stop := by
  induction bs generalizing start with
  | nil => exact absurd h.start_mem (by simp)
  | cons b bs ih =>
    rcases h.singleton_or_cons with ⟨hb, _⟩ | ⟨next, rest, hb, hlt, hrest⟩
    . rw [hb]
      simp [Instruction.intervals]
    . cases hb
      intro cut hc
      rcases List.mem_cons.mp hc with rfl | hc
      . exact ⟨Nat.le_refl _, hlt, hrest.le_stop _ List.mem_cons_self⟩
      . obtain ⟨h₁, h₂, h₃⟩ := ih hrest cut hc
        exact ⟨by omega, h₂, h₃⟩

theorem le_or_le_of_mem_intervals (h : IsPartition start stop bs) {i : Nat} (hi : i ∈ bs) :
    ∀ cut ∈ Instruction.intervals bs, i ≤ cut.1 ∨ cut.2 ≤ i := by
  induction bs generalizing start with
  | nil => contradiction
  | cons b bs ih =>
    rcases h.singleton_or_cons with ⟨hb, _⟩ | ⟨next, rest, hb, hlt, hrest⟩
    . rw [hb]
      simp [Instruction.intervals]
    . cases hb
      intro cut hc
      rcases List.mem_cons.mp hc with rfl | hm
      . rcases List.mem_cons.mp hi with rfl | hi
        . exact .inl (Nat.le_refl _)
        . exact .inr (hrest.start_le i hi)
      . rcases List.mem_cons.mp hi with rfl | hi
        . obtain ⟨hle, _, _⟩ := hrest.mem_intervals cut hm
          exact .inl (Nat.le_trans (Nat.le_of_lt hlt) hle)
        . exact ih hrest hi cut hm

theorem exists_mem_intervals (h : IsPartition start stop bs) {i : Nat} (hs : start ≤ i)
    (hi : i < stop) : ∃ cut ∈ Instruction.intervals bs, cut.1 ≤ i ∧ i < cut.2 := by
  induction bs generalizing start with
  | nil => exact absurd h.start_mem (by simp)
  | cons b bs ih =>
    rcases h.singleton_or_cons with ⟨_, he⟩ | ⟨next, rest, hb, hlt, hrest⟩
    . omega
    . cases hb
      by_cases hn : i < next
      . exact ⟨(b, next), List.mem_cons_self, hs, hn⟩
      . obtain ⟨cut, hc, h⟩ := ih hrest (Nat.le_of_not_lt hn)
        exact ⟨cut, List.mem_cons_of_mem _ hc, h⟩

theorem sub_lt_of_mem_intervals (h : IsPartition start stop bs) {i : Nat} (hi : i ∈ bs)
    (hs : start < i) (ht : i < stop) :
    ∀ cut ∈ Instruction.intervals bs, cut.2 - cut.1 < stop - start := by
  intro cut hc
  have := h.mem_intervals cut hc
  have := h.le_or_le_of_mem_intervals hi cut hc
  omega

end IsPartition

namespace Instruction

variable {α : Type}

theorem isPartition_boundsFrom {xs : List (Instruction α)} (h : ∀ x ∈ xs, 0 < x.length)
    (start : Nat) : IsPartition start (start + totalLength xs) (boundsFrom start xs) := by
  induction xs generalizing start with
  | nil => constructor <;> simp [boundsFrom, totalLength]
  | cons x xs ih =>
    obtain ⟨hx, h⟩ := List.forall_mem_cons.mp h
    have ih := ih h (start + x.length)
    rw [boundsFrom, totalLength, ← Nat.add_assoc]
    constructor
    . apply List.pairwise_cons.mpr
      refine ⟨fun i hi => ?_, ih.ascending⟩
      have := ih.start_le i hi
      omega
    . exact List.mem_cons_self
    . exact List.mem_cons_of_mem _ ih.stop_mem
    . intro i hi
      rcases List.mem_cons.mp hi with rfl | hi
      . exact Nat.le_refl _
      . have := ih.start_le i hi
        omega
    . intro i hi
      rcases List.mem_cons.mp hi with rfl | hi
      . omega
      . exact ih.le_stop i hi

theorem isPartition_bounds {xs : List (Instruction α)} (h : ∀ x ∈ xs, 0 < x.length) :
    IsPartition 0 (totalLength xs) (bounds xs) := by
  simpa [bounds] using isPartition_boundsFrom h 0

theorem isPartition_bounds_of_normal {xs : List (Instruction α)}
    (h : (concatenated xs).Normal) : IsPartition 0 (concatenated xs).length (bounds xs) := by
  obtain ⟨_, _, hparts⟩ := normal_concatenated.mp h
  rw [length_concatenated]
  exact isPartition_bounds fun x hm => (hparts x hm).length_pos

theorem mem_mergeBounds {as bs : List Nat} {i : Nat} :
    i ∈ mergeBounds as bs ↔ i ∈ as ∨ i ∈ bs :=
  mem_eraseReps.trans List.mem_merge

theorem isPartition_cuts {xs ys : List (Instruction α)} (ha : (concatenated xs).Normal)
    (hb : (concatenated ys).Normal) (hl : (concatenated xs).length = (concatenated ys).length) :
    IsPartition 0 (concatenated xs).length (mergeBounds (bounds xs) (bounds ys)) := by
  apply IsPartition.mergeBounds (isPartition_bounds_of_normal ha)
  rw [hl]
  exact isPartition_bounds_of_normal hb

theorem exists_mem_bounds {xs : List (Instruction α)} (h : (concatenated xs).Normal) :
    ∃ i ∈ bounds xs, 0 < i ∧ i < (concatenated xs).length := by
  obtain ⟨hl, _, hparts⟩ := normal_concatenated.mp h
  match xs, hl with
  | x :: y :: rest, _ =>
    have hx := (hparts x (by simp)).length_pos
    have hy := (hparts y (by simp)).length_pos
    refine ⟨x.length, ?_, hx, ?_⟩
    . simp [bounds, boundsFrom]
    . rw [length_concatenated, totalLength, totalLength]
      omega

theorem intervals_boundsFrom_cons (start : Nat) (x : Instruction α) (xs : List (Instruction α)) :
    intervals (boundsFrom start (x :: xs))
      = (start, start + x.length) :: intervals (boundsFrom (start + x.length) xs) := by
  cases xs <;> rfl

theorem zip_intervals_boundsFrom (start : Nat) (xs : List (Instruction α)) :
    (xs.zip (intervals (boundsFrom start xs))).map Prod.snd = intervals (boundsFrom start xs) := by
  induction xs generalizing start with
  | nil => rfl
  | cons x xs ih => rw [intervals_boundsFrom_cons, List.zip_cons_cons, List.map_cons, ih]

theorem forall₂_intervals_of_zip {β : Type} {R : Nat × Nat → β → Prop} {xs : List (Instruction α)}
    {ys : List β}
    (h : List.Forall₂ (fun part y => R part.2 y) (xs.zip (intervals (bounds xs))) ys) :
    List.Forall₂ R (intervals (bounds xs)) ys := by
  rw [bounds, ← zip_intervals_boundsFrom]
  exact List.forall₂_map_left_iff.mpr h

theorem lt_of_mem_zip {xs : List (Instruction α)} {part : Instruction α × Nat × Nat}
    (h : (concatenated xs).Normal) (hp : part ∈ xs.zip (intervals (bounds xs))) :
    part.2.1 < part.2.2 ∧ part.2.2 ≤ (concatenated xs).length :=
  ((isPartition_bounds_of_normal h).mem_intervals _ (List.of_mem_zip hp).2).2

theorem sub_lt_of_mem_zip {xs : List (Instruction α)} {part : Instruction α × Nat × Nat}
    (h : (concatenated xs).Normal) (hp : part ∈ xs.zip (intervals (bounds xs))) :
    part.2.2 - part.2.1 < (concatenated xs).length := by
  obtain ⟨i, hi, hs, ht⟩ := exists_mem_bounds h
  exact (isPartition_bounds_of_normal h).sub_lt_of_mem_intervals hi hs ht _ (List.of_mem_zip hp).2

theorem totalLength_of_intervals {start stop : Nat} {bs : List Nat} {ys : List (Instruction α)}
    (hbs : IsPartition start stop bs)
    (h : List.Forall₂ (fun cut y => y.length = cut.2 - cut.1) (intervals bs) ys) :
    totalLength ys = stop - start := by
  induction bs generalizing start ys with
  | nil => exact absurd hbs.start_mem (by simp)
  | cons b bs ih =>
    rcases hbs.singleton_or_cons with ⟨hb, he⟩ | ⟨next, rest, hb, hlt, hrest⟩
    . rw [hb] at h
      cases h
      simp [totalLength, he]
    . cases hb
      cases h with
      | cons hy h =>
        have := hrest.le_stop next List.mem_cons_self
        rw [totalLength, hy, ih hrest h]
        omega

theorem sampleAtParts_of_intervals [Number α] {f : Nat → Sample α} {start stop : Nat}
    {bs : List Nat} {ys : List (Instruction α)} (hbs : IsPartition start stop bs)
    (h : List.Forall₂ (fun cut y => y.length = cut.2 - cut.1
      ∧ ∀ i < cut.2 - cut.1, y.sampleAt i = f (cut.1 + i)) (intervals bs) ys)
    {i : Nat} (hi : i < stop - start) : sampleAtParts ys i = f (start + i) := by
  induction bs generalizing start ys i with
  | nil => exact absurd hbs.start_mem (by simp)
  | cons b bs ih =>
    rcases hbs.singleton_or_cons with ⟨_, he⟩ | ⟨next, rest, hb, hlt, hrest⟩
    . omega
    . cases hb
      cases h with
      | cons hy h =>
        rw [sampleAtParts, hy.1]
        split
        . next hlt => exact hy.2 i hlt
        . rw [ih hrest h (by omega)]
          congr 1
          dsimp only
          omega

theorem sampleAtParts_map_intervals [Number α] {f : Nat × Nat → Instruction α} {start stop : Nat}
    {bs : List Nat} (hbs : IsPartition start stop bs)
    (hf : ∀ cut ∈ intervals bs, (f cut).length = cut.2 - cut.1) :
    ∀ cut ∈ intervals bs, ∀ i < cut.2 - cut.1,
      sampleAtParts ((intervals bs).map f) (cut.1 - start + i) = (f cut).sampleAt i := by
  induction bs generalizing start with
  | nil => exact absurd hbs.start_mem (by simp)
  | cons b bs ih =>
    rcases hbs.singleton_or_cons with ⟨hb, _⟩ | ⟨next, rest, hb, hlt, hrest⟩
    . rw [hb]
      simp [intervals]
    . cases hb
      have hsplit : intervals (b :: next :: rest) = (b, next) :: intervals (next :: rest) := rfl
      rw [hsplit, List.forall_mem_cons] at hf
      rw [hsplit, List.forall_mem_cons, List.map_cons]
      obtain ⟨hfirst, hf⟩ := hf
      dsimp only at hfirst
      constructor
      . intro i hi
        rw [Nat.sub_self, Nat.zero_add, sampleAtParts, if_pos (hfirst ▸ hi)]
      . intro cut hc i hi
        have := (hrest.mem_intervals cut hc).1
        rw [sampleAtParts, if_neg (by omega), hfirst, ← ih hrest hf cut hc i hi]
        congr 1
        omega

theorem sampleAtParts_of_mem_zip [Number α] {start : Nat} {xs : List (Instruction α)} :
    ∀ part ∈ xs.zip (intervals (boundsFrom start xs)), part.1 ∈ xs
      ∧ part.2.2 = part.2.1 + part.1.length ∧ start ≤ part.2.1
      ∧ part.2.2 ≤ start + totalLength xs
      ∧ ∀ i < part.1.length, sampleAtParts xs (part.2.1 - start + i) = part.1.sampleAt i := by
  induction xs generalizing start with
  | nil => simp
  | cons x xs ih =>
    intro part hp
    rw [intervals_boundsFrom_cons, List.zip_cons_cons] at hp
    rw [totalLength]
    rcases List.mem_cons.mp hp with rfl | hp
    . refine ⟨List.mem_cons_self, rfl, Nat.le_refl _, by dsimp only; omega, ?_⟩
      intro i hi
      rw [sampleAtParts, Nat.sub_self, Nat.zero_add, if_pos hi]
    . obtain ⟨h₁, h₂, h₃, h₄, h₅⟩ := ih part hp
      refine ⟨List.mem_cons_of_mem _ h₁, h₂, by omega, by omega, ?_⟩
      intro i hi
      rw [sampleAtParts, if_neg (by omega), ← h₅ i hi]
      congr 1
      omega

end Instruction

end Waveplan
