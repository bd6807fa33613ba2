import Waveplan.Proofs.Instruction.Stack

/-!
This module contains the calls that stacking makes of itself: what it is called with, and what
becomes of the results. Together with a check of the operands that comes first, they are all that
stacking does.
-/

namespace Waveplan.Instruction

variable {α : Type} {a b x : Instruction α} {xs : List (Instruction α)}

/--
The type of the channels of two operands side by side. Operands that cannot be stacked have none.
-/
def stackedType (a b : Instruction α) : Except InstructionError SampleType :=
  if a.length ≠ b.length then .error (.lengthMismatch a.length b.length)
  else a.sampleType.merge b.sampleType

theorem stackedType_eq_ok_iff {t : SampleType} :
    stackedType a b = .ok t ↔ a.length = b.length ∧ a.sampleType.merge b.sampleType = .ok t := by
  unfold stackedType
  split
  . next hl => simp [hl]
  . next hl => simp [not_not.mp hl]

section Measure

theorem parts_copies_ne_singleton (hx : (concatenated xs).Normal) (copies : Nat)
    (y : Instruction α) :
    ((List.replicate copies (concatenated xs)).flatMap parts).filter (fun x => !x.isEmpty)
      ≠ [y] := by
  obtain ⟨hl, _, hxs⟩ := normal_concatenated.mp hx
  rw [List.filter_eq_self.mpr]
  . intro h
    have hlength := congrArg List.length h
    rw [List.length_flatMap, List.map_replicate, List.sum_replicate_nat] at hlength
    have hone := Nat.eq_one_of_mul_eq_one_left hlength
    rw [parts] at hone
    omega
  . intro z hz
    obtain ⟨c, hc, hz⟩ := List.mem_flatMap.mp hz
    rw [List.eq_of_mem_replicate hc] at hz
    have hpos := (hxs z hz).length_pos
    simpa [isEmpty] using Nat.ne_of_gt hpos

/--
How many calls stacking can be nested in: two for each tick, and one more for repetitions, whose
copies are no repetitions if they are as long as the whole.
-/
def callsToStack : Instruction α → Instruction α → Nat
  | repeated n x, repeated _ _ => 2 * (repeated n x).length + 1
  | a, _ => 2 * a.length

theorem callsToStack_le (a b : Instruction α) : callsToStack a b ≤ 2 * a.length + 1 := by
  unfold callsToStack
  split <;> omega

theorem le_callsToStack (a b : Instruction α) : 2 * a.length ≤ callsToStack a b := by
  unfold callsToStack
  split <;> omega

theorem callsToStack_of_ne_repeated (h : ∀ n x, a ≠ repeated n x) (b : Instruction α) :
    callsToStack a b = 2 * a.length := by
  unfold callsToStack
  split
  . exact absurd rfl (h _ _)
  . rfl

variable [Number α]

theorem eq_nil_of_mergePatterns (h : mergePatterns xs = []) : xs = [] := by
  cases xs with
  | nil => rfl
  | cons x xs =>
    cases x with
    | pattern p => rcases mergePatterns_pattern p xs with ⟨_, _, _, hp⟩ | ⟨_, hp⟩ <;> simp_all
    | _ =>
      rw [mergePatterns_of_not_isPattern rfl] at h
      contradiction

theorem eq_singleton_of_mergePatterns {n : Nat} {body : Instruction α}
    (h : mergePatterns xs = [repeated n body]) : xs = [repeated n body] := by
  cases xs with
  | nil => contradiction
  | cons x xs =>
    cases x with
    | pattern p => rcases mergePatterns_pattern p xs with ⟨_, _, _, hp⟩ | ⟨_, hp⟩ <;> simp_all
    | _ =>
      rw [mergePatterns_of_not_isPattern rfl] at h
      obtain ⟨hx, hxs⟩ := List.cons_eq_cons.mp h
      rw [hx, eq_nil_of_mergePatterns hxs]

theorem tile_ne_repeated (hx : x.Normal) (h : ∀ n body, x ≠ repeated n body) (copies : Nat) :
    ∀ n body, x.tile copies ≠ repeated n body := by
  intro n body ht
  obtain ⟨ys, hys, _, hj⟩ := join_eq x.sampleType (List.replicate copies x)
  rw [← tile, ht] at hj
  rcases hj with ⟨_, hj⟩ | ⟨y, hy, hj⟩ | ⟨_, hj⟩
  . contradiction
  . -- the copies would have a repetition as their only part
    rw [hy, ← hj] at hys
    have hparts := eq_singleton_of_mergePatterns hys.symm
    have hmem : repeated n body ∈ (List.replicate copies x).flatMap parts := by
      apply List.mem_of_mem_filter
      rw [hparts]
      exact List.mem_singleton_self _
    obtain ⟨z, hz, hmem⟩ := List.mem_flatMap.mp hmem
    rw [List.eq_of_mem_replicate hz] at hmem
    cases x with
    | concatenated xs => exact parts_copies_ne_singleton hx copies _ hparts
    | _ => exact h _ _ (List.mem_singleton.mp hmem).symm
  . contradiction

end Measure

variable [Number α]

/--
What stacking two instructions calls itself with.
-/
def calls : Instruction α → Instruction α → List (Instruction α × Instruction α)
  | concatenated xs, concatenated ys =>
    (intervals (mergeBounds (bounds xs) (bounds ys))).map fun (i, j) =>
      ((concatenated xs).sub i j, (concatenated ys).sub i j)
  | concatenated xs, b => (xs.zip (intervals (bounds xs))).map fun (x, i, j) => (x, b.sub i j)
  | a, concatenated ys => (ys.zip (intervals (bounds ys))).map fun (y, i, j) => (a.sub i j, y)
  | repeated m x, repeated _ y =>
    let period := x.length.lcm y.length
    if period = (repeated m x).length then
      [(x.tile (period / x.length), y.tile (period / y.length))]
    else
      [(x.times (period / x.length), y.times (period / y.length))]
  | _, _ => []

/--
What stacking two instructions makes of the results of its calls. Operands that it makes no calls
for are written out.
-/
def assemble (t : SampleType) (a b : Instruction α) (zs : List (Instruction α)) :
    Except InstructionError (Instruction α) :=
  match a, b, zs with
  | concatenated _, _, zs => .ok (join t zs)
  | _, concatenated _, zs => .ok (join t zs)
  | repeated m x, repeated _ y, z :: _ =>
    .ok (z.times ((repeated m x).length / x.length.lcm y.length))
  | a, b, _ => stackSamples a b

/--
Stacking two instructions, where `next` stands for the calls.
-/
def stackStep (next : Instruction α → Instruction α → Except InstructionError (Instruction α))
    (a b : Instruction α) : Except InstructionError (Instruction α) := do
  let t ← stackedType a b
  if a.length = 0 then
    .ok (pattern (.empty t))
  else
    let zs ← (calls a b).mapM fun c => next c.1 c.2
    assemble t a b zs

theorem stackWithin_succ (budget : Nat) (a b : Instruction α) :
    stackWithin (budget + 1) a b = stackStep (stackWithin budget) a b := by
  unfold stackWithin stackStep stackedType
  split
  . rfl
  . congr 1
    funext t
    split
    . rfl
    . dsimp only
      have hmap {β γ : Type} (x : Except InstructionError β) (f : β → γ) :
          f <$> x = x >>= fun z => .ok (f z) := map_eq_pure_bind f x
      cases a with
      | concatenated xs =>
        cases b <;> simp only [calls, assemble, List.mapM_map, hmap] <;> rfl
      | repeated m x =>
        cases b with
        | concatenated ys => simp only [calls, assemble, List.mapM_map, hmap]; rfl
        | repeated n y =>
          simp only [calls]
          split <;> simp only [List.mapM_cons, List.mapM_nil, hmap, bind_assoc, pure_bind] <;> rfl
        | _ => rfl
      | _ =>
        cases b with
        | concatenated ys => simp only [calls, assemble, List.mapM_map, hmap]; rfl
        | _ => rfl

section Operands

/--
Operands that are stacked within stacking `a` and `b`: side by side they have the channels of those,
and they take fewer nested calls.
-/
structure IsSubproblem (a b : Instruction α) (c : Instruction α × Instruction α) : Prop where
  left : c.1.Typed a.sampleType
  right : c.2.Typed b.sampleType
  length : c.1.length = c.2.length
  callsToStack_lt : callsToStack c.1 c.2 < callsToStack a b

theorem isSubproblem_pieces {x z : Instruction α} {start stop : Nat} (hx : IsPiece a start stop x)
    (hz : IsPiece b start stop z) (h : stop - start < a.length) : IsSubproblem a b (x, z) where
  left := hx.typed
  right := hz.typed
  length := hx.length.trans hz.length.symm
  callsToStack_lt := by
    have hle := callsToStack_le x z
    rw [hx.length] at hle
    have := le_callsToStack a b
    dsimp only
    omega

theorem isSubproblem_copies {m n : Nat} {x z : Instruction α} (ha : (repeated m x).Normal)
    (hb : (repeated n z).Normal) {copy : Instruction α → Nat → Instruction α} (hcopy : IsCopy copy)
    (h : ∀ y, callsToStack (copy x (x.length.lcm z.length / x.length)) y
      ≤ 2 * (repeated m x).length) :
    IsSubproblem (repeated m x) (repeated n z)
      (copy x (x.length.lcm z.length / x.length), copy z (x.length.lcm z.length / z.length)) where
  left := hcopy.typed (normal_repeated.mp ha).2.2.2.typed _
  right := hcopy.typed (normal_repeated.mp hb).2.2.2.typed _
  length := by
    dsimp only
    rw [hcopy.length, hcopy.length, Nat.div_mul_cancel (Nat.dvd_lcm_left _ _),
      Nat.div_mul_cancel (Nat.dvd_lcm_right _ _)]
  callsToStack_lt := Nat.lt_succ_of_le (h _)

/--
All that stacking calls itself with is shorter, but for copies that are as long as the whole.
-/
theorem isSubproblem_of_mem_calls (ha : a.Normal) (hb : b.Normal) (hl : a.length = b.length)
    (h₀ : a.length ≠ 0) : ∀ c ∈ calls a b, IsSubproblem a b c := by
  unfold calls
  split
  . next xs ys =>
    rw [List.forall_mem_map]
    intro cut hc
    have hcuts := isPartition_cuts ha hb hl
    obtain ⟨_, hlt, hle⟩ := hcuts.mem_intervals cut hc
    obtain ⟨i, hi, hs, ht⟩ := exists_mem_bounds ha
    exact isSubproblem_pieces (isPiece_sub ha hlt hle) (isPiece_sub hb hlt (hl ▸ hle))
      (hcuts.sub_lt_of_mem_intervals (mem_mergeBounds.mpr (.inl hi)) hs ht cut hc)
  . next xs _ _ =>
    rw [List.forall_mem_map]
    intro part hp
    obtain ⟨hlt, hle⟩ := lt_of_mem_zip ha hp
    exact isSubproblem_pieces (isPiece_part ha part hp) (isPiece_sub hb hlt (hl ▸ hle))
      (sub_lt_of_mem_zip ha hp)
  . next ys _ =>
    rw [List.forall_mem_map]
    intro part hp
    obtain ⟨hlt, hle⟩ := lt_of_mem_zip hb hp
    exact isSubproblem_pieces (isPiece_sub ha hlt (hl ▸ hle)) (isPiece_part hb part hp)
      (hl ▸ sub_lt_of_mem_zip hb hp)
  . next m x n z =>
    obtain ⟨_, _, hx, hxn⟩ := normal_repeated.mp ha
    have hdx := Nat.dvd_lcm_left x.length z.length
    dsimp only
    split
    . next hp =>
      rw [List.forall_mem_singleton]
      refine isSubproblem_copies ha hb isCopy_tile fun y => ?_
      rw [callsToStack_of_ne_repeated (tile_ne_repeated hxn hx _), length_tile,
        Nat.div_mul_cancel hdx, hp]
    . next hp =>
      rw [List.forall_mem_singleton]
      refine isSubproblem_copies ha hb isCopy_times fun y => ?_
      have hle := callsToStack_le (x.times (x.length.lcm z.length / x.length)) y
      rw [length_times, Nat.div_mul_cancel hdx] at hle
      have := Nat.le_of_dvd (Nat.pos_of_ne_zero h₀) (lcm_dvd_length hl)
      omega
  . simp

/--
What stacking makes of two instructions depends on nothing but what its calls give.
-/
theorem stackStep_congr
    {f g : Instruction α → Instruction α → Except InstructionError (Instruction α)}
    (ha : a.Normal) (hb : b.Normal) (h : ∀ c, IsSubproblem a b c → f c.1 c.2 = g c.1 c.2) :
    stackStep f a b = stackStep g a b := by
  unfold stackStep
  cases ht : stackedType a b with
  | error e => rfl
  | ok t =>
    obtain ⟨hl, _⟩ := stackedType_eq_ok_iff.mp ht
    simp only [bind, Except.bind]
    split
    . rfl
    . next h₀ =>
      rw [Outcome.mapM_congr fun c hc => h c (isSubproblem_of_mem_calls ha hb hl h₀ c hc)]

end Operands

end Waveplan.Instruction
