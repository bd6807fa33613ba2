import Waveplan.Proofs.Instruction.Bounds
import Waveplan.Instruction.Slice

/-!
This module contains that the parts of a concatenation can be looked up by their bounds instead of
being walked through: a tick is played by the last part that does not begin after it, and a slice is
joined from the parts of its first tick, of its last tick, and in between.
-/

namespace Waveplan.Instruction

variable {α : Type} {xs : List (Instruction α)} {start stop tick : Nat}

/--
How many parts, the first of which begins at `start`, begin no later than a tick. The bounds ascend,
so a search that halves them finds it.
-/
def countFrom (start : Nat) (xs : List (Instruction α)) (tick : Nat) : Nat :=
  ((boundsFrom start xs).takeWhile (· ≤ tick)).length

/--
The part that plays a tick.
-/
def partAt (xs : List (Instruction α)) (tick : Nat) : Nat := countFrom 0 xs tick - 1

theorem countFrom_of_lt (h : tick < start) : countFrom start xs tick = 0 := by
  cases xs <;> simp [countFrom, boundsFrom, h]

theorem countFrom_cons {x : Instruction α} (h : start ≤ tick) :
    countFrom start (x :: xs) tick = countFrom (start + x.length) xs tick + 1 := by
  simp [countFrom, boundsFrom, h]

variable (xs) in
theorem countFrom_pos (h : start ≤ tick) : 0 < countFrom start xs tick := by
  cases xs <;> simp [countFrom, boundsFrom, h]

variable [Number α]

variable (xs) in
theorem exists_part (hs : start ≤ tick) (ht : tick < start + totalLength xs) :
    ∃ k x b, countFrom start xs tick = k + 1 ∧ xs[k]? = some x
      ∧ (boundsFrom start xs)[k]? = some b ∧ b ≤ tick ∧ tick < b + x.length
      ∧ sampleAtParts xs (tick - start) = x.sampleAt (tick - b) := by
  induction xs generalizing start with
  | nil =>
    rw [totalLength] at ht
    omega
  | cons x xs ih =>
    rw [totalLength] at ht
    rw [countFrom_cons hs, sampleAtParts]
    by_cases hx : tick < start + x.length
    . refine ⟨0, x, start, ?_, rfl, rfl, hs, hx, ?_⟩
      . rw [countFrom_of_lt hx]
      . rw [if_pos (by omega)]
    . obtain ⟨k, y, b, hk, hy, hb, hle, hlt, hsample⟩ :=
        ih (by omega : start + x.length ≤ tick) (by omega)
      refine ⟨k + 1, y, b, by rw [hk], hy, hb, hle, hlt, ?_⟩
      rw [if_neg (by omega), ← hsample]
      congr 1
      omega

/--
The sample of a concatenation is the sample of the part that is found by its bounds.
-/
theorem exists_partAt (ht : tick < (concatenated xs).length) :
    ∃ x b, xs[partAt xs tick]? = some x ∧ (bounds xs)[partAt xs tick]? = some b
      ∧ b ≤ tick ∧ tick < b + x.length
      ∧ (concatenated xs).sampleAt tick = x.sampleAt (tick - b) := by
  rw [length_concatenated] at ht
  obtain ⟨k, x, b, hk, hx, hb, hle, hlt, hsample⟩ :=
    exists_part xs (Nat.zero_le tick) (by omega)
  have hpart : partAt xs tick = k := by rw [partAt, hk, Nat.add_sub_cancel]
  rw [hpart, sampleAt]
  exact ⟨x, b, hx, hb, hle, hlt, hsample⟩

/--
What a slice keeps of a part between two bounds.
-/
def cutPart (start stop : Nat) (part : Instruction α × Nat × Nat) : Instruction α :=
  part.1.sub (max start part.2.1 - part.2.1) (min stop part.2.2 - part.2.1)

/--
The parts that are looked up for a slice, of those of which the first begins at `offset`.
-/
def lookUpParts (offset : Nat) (xs : List (Instruction α)) (start stop : Nat) :
    List (Instruction α) :=
  (((xs.zip (intervals (boundsFrom offset xs))).take (countFrom offset xs (stop - 1))).drop
    (countFrom offset xs start - 1)).map (cutPart start stop)

theorem lookUpParts_of_le {offset : Nat} (h : stop - 1 < offset) :
    lookUpParts offset xs start stop = [] := by
  rw [lookUpParts, countFrom_of_lt h]
  simp

theorem subParts_eq_lookUpParts {offset : Nat} (hxs : ∀ x ∈ xs, 0 < x.length) (hs : start < stop)
    (ho : offset < stop) (ht : stop ≤ offset + totalLength xs) :
    subParts xs (start - offset) (stop - offset) = lookUpParts offset xs start stop := by
  induction xs generalizing offset with
  | nil =>
    rw [totalLength] at ht
    omega
  | cons x xs ih =>
    obtain ⟨hx, hxs⟩ := List.forall_mem_cons.mp hxs
    rw [totalLength] at ht
    have hrest : (if x.length < stop - offset then
        subParts xs (start - offset - x.length) (stop - offset - x.length) else [])
        = lookUpParts (offset + x.length) xs start stop := by
      split
      . rw [← ih hxs (by omega) (by omega), Nat.sub_sub, Nat.sub_sub]
      . rw [lookUpParts_of_le (by omega)]
    rw [subParts, hrest, lookUpParts, lookUpParts, countFrom_cons (by omega : offset ≤ stop - 1),
      intervals_boundsFrom_cons, List.zip_cons_cons, List.take_succ_cons]
    by_cases hlt : start < offset + x.length
    . -- the slice begins in this part, or before it
      have hfirst : countFrom offset (x :: xs) start - 1 = 0 := by
        by_cases hle : offset ≤ start
        . rw [countFrom_cons hle, countFrom_of_lt hlt]
        . rw [countFrom_of_lt (by omega)]
      rw [hfirst, countFrom_of_lt hlt, if_pos (by omega), List.drop_zero, List.drop_zero,
        List.map_cons, List.singleton_append]
      have hstart : max start offset - offset = start - offset := by omega
      have hstop : min stop (offset + x.length) - offset = Nat.min (stop - offset) x.length := by
        have : Nat.min (stop - offset) x.length = min (stop - offset) x.length := rfl
        omega
      rw [cutPart, hstart, hstop]
    . have hpos := countFrom_pos xs (Nat.le_of_not_lt hlt)
      obtain ⟨k, hk⟩ := Nat.exists_eq_add_of_lt hpos
      rw [countFrom_cons (by omega), hk, if_neg (by omega)]
      simp

/--
A slice of a concatenation joins the parts from the one of its first tick to the one of its last,
each cut where the slice begins or ends in it.
-/
theorem sub_concatenated (hx : (concatenated xs).Normal) (hs : start < stop)
    (ht : stop ≤ (concatenated xs).length)
    (hwhole : ¬(start = 0 ∧ stop = (concatenated xs).length)) :
    (concatenated xs).sub start stop
      = join (headType xs)
        ((((xs.zip (intervals (bounds xs))).take (partAt xs (stop - 1) + 1)).drop
          (partAt xs start)).map (cutPart start stop)) := by
  obtain ⟨_, _, hparts⟩ := normal_concatenated.mp hx
  have hpos := countFrom_pos xs (Nat.zero_le (stop - 1))
  have hlast : partAt xs (stop - 1) + 1 = countFrom 0 xs (stop - 1) := Nat.sub_add_cancel hpos
  rw [length_concatenated] at ht
  have hsub := subParts_eq_lookUpParts (fun x hm => (hparts x hm).length_pos) hs
    (by omega : 0 < stop) (by omega)
  rw [sub, if_neg hwhole, hlast]
  exact congrArg (join (headType xs)) hsub

end Waveplan.Instruction
