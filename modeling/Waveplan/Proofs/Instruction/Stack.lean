import Waveplan.Proofs.Instruction.Bounds
import Waveplan.Proofs.Instruction.Flatten
import Waveplan.Proofs.Instruction.Slice

/-!
This module contains that stacked instructions play the channels of both operands side by side,
whatever their shapes.
-/

namespace Waveplan

def Sample.stack {α : Type} (a b : Sample α) : Sample α := ⟨a.values ++ b.values⟩

namespace Instruction

variable {α : Type}

theorem lcm_dvd_length {m n : Nat} {x z : Instruction α}
    (h : (repeated m x).length = (repeated n z).length) :
    x.length.lcm z.length ∣ (repeated m x).length := by
  apply Nat.lcm_dvd
  . exact ⟨m, by rw [length_repeated, Nat.mul_comm]⟩
  . rw [h]
    exact ⟨n, by rw [length_repeated, Nat.mul_comm]⟩

variable [Number α]

/--
An instruction that plays the ticks of `a` and `b` from `start` to `stop` side by side. The samples
of ramps are only known if they can be divided.
-/
structure IsStack (t : SampleType) (a b : Instruction α) (start stop : Nat) (y : Instruction α) :
    Prop where
  typed : y.Typed t
  length : y.length = stop - start
  ramps : y.RampsSatisfy fun _ => False
  sampleAt {Q : Ramp α → Prop} : IsDivisible Q → a.RampsSatisfy Q → b.RampsSatisfy Q →
    ∀ i < stop - start, y.sampleAt i = (a.sampleAt (start + i)).stack (b.sampleAt (start + i))

section Shapes

variable {t : SampleType} {a b y : Instruction α} {start stop : Nat}

theorem exists_stackSamples (ha : a.Normal) (hb : b.Normal) (hl : a.length = b.length)
    (ht : a.sampleType.merge b.sampleType = .ok t) :
    ∃ y, stackSamples a b = .ok y ∧ IsStack t a b 0 a.length y := by
  have hlp : a.toPattern.length = b.toPattern.length := by
    rw [length_toPattern ha, length_toPattern hb, hl]
  have htp : a.toPattern.sampleType.merge b.toPattern.sampleType = .ok t := by
    rw [sampleType_toPattern ha, sampleType_toPattern hb, ht]
  have hs := Pattern.stack_eq_ok hlp htp
  have hw := Pattern.wellFormed_stack (wellFormed_toPattern ha) (wellFormed_toPattern hb) hs
  refine ⟨_, by rw [stackSamples, hs]; rfl, typed_pattern hw, ?_, rampsSatisfy_pattern _, ?_⟩
  . rw [length_pattern, Nat.sub_zero, length_toPattern ha]
  . intro Q _ _ _ i hi
    rw [Instruction.sampleAt, Pattern.sample_stack hlp htp hs, Nat.zero_add,
      sample_toPattern ha hi, sample_toPattern hb (hl ▸ hi)]
    rfl

/--
An instruction that plays the ticks of another one from `start` to `stop`.
-/
structure IsPiece (a : Instruction α) (start stop : Nat) (x : Instruction α) : Prop where
  typed : x.Typed a.sampleType
  length : x.length = stop - start
  ramps {Q : Ramp α → Prop} : IsDivisible Q → a.RampsSatisfy Q → x.RampsSatisfy Q
  sampleAt {Q : Ramp α → Prop} : IsDivisible Q → a.RampsSatisfy Q →
    ∀ i < stop - start, x.sampleAt i = a.sampleAt (start + i)

theorem isPiece_sub (ha : a.Normal) (h : start < stop) (hs : stop ≤ a.length) :
    IsPiece a start stop (a.sub start stop) where
  typed := typed_sub ha.typed h hs
  length := length_sub ha h hs
  ramps hQ hr := rampsSatisfy_sub hQ ha hr h hs
  sampleAt hQ hr _ hi := sampleAt_sub hQ ha hr h hs hi

theorem isPiece_part {xs : List (Instruction α)} (ha : (concatenated xs).Normal) :
    ∀ part ∈ xs.zip (intervals (bounds xs)),
      IsPiece (concatenated xs) part.2.1 part.2.2 part.1 := by
  intro part hp
  obtain ⟨_, _, hparts⟩ := normal_concatenated.mp ha
  obtain ⟨hm, he, _, _, hs⟩ := sampleAtParts_of_mem_zip part hp
  refine ⟨(hparts _ hm).typed, by omega, fun _ hr => rampsSatisfy_concatenated.mp hr _ hm, ?_⟩
  intro Q _ _ i hi
  rw [Instruction.sampleAt, ← hs i (by omega), Nat.sub_zero]

theorem IsStack.of_pieces {x z : Instruction α} (hx : IsPiece a start stop x)
    (hz : IsPiece b start stop z) (hy : IsStack t x z 0 (stop - start) y) :
    IsStack t a b start stop y := by
  refine ⟨hy.typed, hy.length, hy.ramps, ?_⟩
  intro Q hQ hra hrb i hi
  rw [hy.sampleAt hQ (hx.ramps hQ hra) (hz.ramps hQ hrb) i hi, Nat.zero_add,
    hx.sampleAt hQ hra i hi, hz.sampleAt hQ hrb i hi]

theorem IsStack.join {bs : List Nat} {ys : List (Instruction α)} (hbs : IsPartition start stop bs)
    (h : List.Forall₂ (fun cut y => IsStack t a b cut.1 cut.2 y) (intervals bs) ys) :
    IsStack t a b start stop (Instruction.join t ys) := by
  have hy : ∀ y ∈ ys, y.Typed t ∧ y.RampsSatisfy fun _ => False := by
    intro y hy
    obtain ⟨i, hi, rfl⟩ := List.mem_iff_getElem.mp hy
    have := h.get (i := i) (by rw [h.length_eq]; exact hi) hi
    exact ⟨this.typed, this.ramps⟩
  have hl := totalLength_of_intervals hbs (h.imp fun _ _ h => h.length)
  refine ⟨typed_join fun y h => (hy y h).1, by rw [length_join, hl],
    rampsSatisfy_join t fun y h => (hy y h).2, ?_⟩
  intro Q hQ hra hrb i hi
  rw [sampleAt_join (fun y h => (hy y h).1) (hl ▸ hi)]
  exact sampleAtParts_of_intervals (f := fun i => (a.sampleAt i).stack (b.sampleAt i)) hbs
    (h.imp fun _ _ h => ⟨h.length, h.sampleAt hQ hra hrb⟩) hi

/--
A way to play an instruction several times in a row.
-/
structure IsCopy (copy : Instruction α → Nat → Instruction α) : Prop where
  typed {x : Instruction α} {t : SampleType} : x.Typed t → ∀ n, (copy x n).Typed t
  length (x : Instruction α) (n : Nat) : (copy x n).length = n * x.length
  ramps {x : Instruction α} {Q : Ramp α → Prop} : x.RampsSatisfy Q → ∀ n,
    (copy x n).RampsSatisfy Q
  sampleAt {x : Instruction α} : x.Normal → ∀ {n i : Nat}, i < n * x.length →
    (copy x n).sampleAt i = x.sampleAt (i % x.length)

theorem isCopy_times : IsCopy (times (α := α)) :=
  ⟨typed_times, length_times, rampsSatisfy_times, fun _ => sampleAt_times⟩

theorem isCopy_tile : IsCopy (tile (α := α)) :=
  ⟨typed_tile, length_tile, rampsSatisfy_tile, sampleAt_tile⟩

theorem IsStack.copies {copy : Instruction α → Nat → Instruction α} (hcopy : IsCopy copy)
    {m n period : Nat} {x z : Instruction α} (hx : x.Normal) (hz : z.Normal)
    (hd : period ∣ (repeated m x).length) (hdx : x.length ∣ period) (hdz : z.length ∣ period)
    (hy : IsStack t (copy x (period / x.length)) (copy z (period / z.length)) 0 period y) :
    IsStack t (repeated m x) (repeated n z) 0 (repeated m x).length
      (y.times ((repeated m x).length / period)) := by
  have hl : (repeated m x).length / period * y.length = (repeated m x).length := by
    rw [hy.length, Nat.sub_zero, Nat.div_mul_cancel hd]
  refine ⟨typed_times hy.typed _, ?_, rampsSatisfy_times hy.ramps _, ?_⟩
  . rw [length_times, hl, Nat.sub_zero]
  . intro Q hQ hra hrb i hi
    rw [Nat.sub_zero] at hi
    have hra := hcopy.ramps (rampsSatisfy_repeated.mp hra) (period / x.length)
    have hrb := hcopy.ramps (rampsSatisfy_repeated.mp hrb) (period / z.length)
    have hpos : 0 < period := Nat.pos_of_dvd_of_pos hd (by omega)
    have hm : i % period < period := Nat.mod_lt i hpos
    rw [sampleAt_times (by rwa [hl]), hy.length, Nat.sub_zero, hy.sampleAt hQ hra hrb _ hm,
      Nat.zero_add, hcopy.sampleAt hx (by rwa [Nat.div_mul_cancel hdx]),
      hcopy.sampleAt hz (by rwa [Nat.div_mul_cancel hdz]), Nat.mod_mod_of_dvd i hdx,
      Nat.mod_mod_of_dvd i hdz, Nat.zero_add, Instruction.sampleAt, Instruction.sampleAt]

end Shapes

theorem isStack_empty {t : SampleType} {a b : Instruction α} (h : a.length = 0) :
    IsStack t a b 0 a.length (pattern (.empty t)) := by
  refine ⟨typed_empty t, by rw [h]; rfl, rampsSatisfy_pattern _, ?_⟩
  intro Q _ _ _ i hi
  omega

section Budget

variable {t : SampleType} {budget : Nat}

variable (α t budget) in
/--
That whatever can be stacked is stacked within a budget of nested calls.
-/
def StacksWithin : Prop :=
  ∀ {a b : Instruction α}, a.Normal → b.Normal → a.length = b.length →
    a.sampleType.merge b.sampleType = .ok t →
    ∃ y, stackWithin budget a b = .ok y ∧ IsStack t a b 0 a.length y

theorem exists_stack_pieces (h : StacksWithin α t budget) {a b x z : Instruction α}
    {start stop : Nat} (ht : a.sampleType.merge b.sampleType = .ok t)
    (hx : IsPiece a start stop x) (hz : IsPiece b start stop z) :
    ∃ y, stackWithin budget x z = .ok y ∧ IsStack t a b start stop y := by
  obtain ⟨y, hy, hs⟩ := h hx.typed.normal hz.typed.normal (by rw [hx.length, hz.length])
    (by rw [hx.typed.sampleType, hz.typed.sampleType, ht])
  rw [hx.length] at hs
  exact ⟨y, hy, .of_pieces hx hz hs⟩

theorem exists_stack_copies (h : StacksWithin α t budget) {m n : Nat} {x z : Instruction α}
    (ha : (repeated m x).Normal) (hb : (repeated n z).Normal)
    (hl : (repeated m x).length = (repeated n z).length)
    (ht : x.sampleType.merge z.sampleType = .ok t) {copy : Instruction α → Nat → Instruction α}
    (hcopy : IsCopy copy) :
    ∃ y, stackWithin budget (copy x (x.length.lcm z.length / x.length))
        (copy z (x.length.lcm z.length / z.length)) = .ok y
      ∧ IsStack t (repeated m x) (repeated n z) 0 (repeated m x).length
        (y.times ((repeated m x).length / x.length.lcm z.length)) := by
  obtain ⟨_, _, _, hx⟩ := normal_repeated.mp ha
  obtain ⟨_, _, _, hz⟩ := normal_repeated.mp hb
  have hdx := Nat.dvd_lcm_left x.length z.length
  have hdz := Nat.dvd_lcm_right x.length z.length
  have hd := lcm_dvd_length hl
  have htx := hcopy.typed hx.typed (x.length.lcm z.length / x.length)
  have htz := hcopy.typed hz.typed (x.length.lcm z.length / z.length)
  have hlx : (copy x (x.length.lcm z.length / x.length)).length = x.length.lcm z.length := by
    rw [hcopy.length, Nat.div_mul_cancel hdx]
  have hlz : (copy z (x.length.lcm z.length / z.length)).length = x.length.lcm z.length := by
    rw [hcopy.length, Nat.div_mul_cancel hdz]
  obtain ⟨y, hy, hs⟩ := h htx.normal htz.normal (hlx.trans hlz.symm)
    (by rw [htx.sampleType, htz.sampleType]; exact ht)
  rw [hlx] at hs
  exact ⟨y, hy, hs.copies hcopy hx hz hd hdx hdz⟩

end Budget

theorem exists_stackWithin {t : SampleType} {a b : Instruction α} (budget : Nat) (ha : a.Normal)
    (hb : b.Normal) (hl : a.length = b.length) (ht : a.sampleType.merge b.sampleType = .ok t) :
    ∃ y, stackWithin budget a b = .ok y ∧ IsStack t a b 0 a.length y := by
  induction budget generalizing a b with
  | zero =>
    unfold stackWithin
    rw [if_neg (not_not.mpr hl), ht]
    by_cases h₀ : a.length = 0
    . exact ⟨_, by simp [h₀, bind, Except.bind], isStack_empty h₀⟩
    . simp only [bind, Except.bind, h₀, if_false]
      exact exists_stackSamples ha hb hl ht
  | succ budget ih =>
    unfold stackWithin
    rw [if_neg (not_not.mpr hl), ht]
    by_cases h₀ : a.length = 0
    . exact ⟨_, by simp [h₀, bind, Except.bind], isStack_empty h₀⟩
    . simp only [bind, Except.bind, h₀, if_false]
      split
      . next xs ys =>
        obtain ⟨rs, hrs, hall⟩ := Outcome.exists_mapM_eq_ok
          (R := fun (cut : Nat × Nat) y => IsStack t _ _ cut.1 cut.2 y) fun cut hc => by
            obtain ⟨_, hlt, hle⟩ := (isPartition_cuts ha hb hl).mem_intervals cut hc
            exact exists_stack_pieces ih ht (isPiece_sub ha hlt hle) (isPiece_sub hb hlt (hl ▸ hle))
        exact ⟨_, by rw [hrs]; rfl, .join (isPartition_cuts ha hb hl) hall⟩
      . next xs _ =>
        obtain ⟨rs, hrs, hall⟩ := Outcome.exists_mapM_eq_ok
          (R := fun (part : Instruction α × Nat × Nat) y =>
            IsStack t _ _ part.2.1 part.2.2 y) fun part hp => by
            obtain ⟨hlt, hle⟩ := lt_of_mem_zip ha hp
            exact exists_stack_pieces ih ht (isPiece_part ha part hp)
              (isPiece_sub hb hlt (hl ▸ hle))
        exact ⟨_, by rw [hrs]; rfl, .join (isPartition_bounds_of_normal ha)
          (forall₂_intervals_of_zip hall)⟩
      . next ys _ =>
        obtain ⟨rs, hrs, hall⟩ := Outcome.exists_mapM_eq_ok
          (R := fun (part : Instruction α × Nat × Nat) y =>
            IsStack t _ _ part.2.1 part.2.2 y) fun part hp => by
            obtain ⟨hlt, hle⟩ := lt_of_mem_zip hb hp
            exact exists_stack_pieces ih ht (isPiece_sub ha hlt (hl ▸ hle))
              (isPiece_part hb part hp)
        exact ⟨_, by rw [hrs]; rfl, .join (hl ▸ isPartition_bounds_of_normal hb)
          (forall₂_intervals_of_zip hall)⟩
      . next m x n z =>
        -- a period as long as the whole is written out, with the same samples
        split
        . obtain ⟨y, hy, hs⟩ := exists_stack_copies ih ha hb hl ht isCopy_tile
          exact ⟨_, by rw [hy]; rfl, hs⟩
        . obtain ⟨y, hy, hs⟩ := exists_stack_copies ih ha hb hl ht isCopy_times
          exact ⟨_, by rw [hy]; rfl, hs⟩
      . exact exists_stackSamples ha hb hl ht

theorem exists_stack {t : SampleType} {a b : Instruction α} (ha : a.Normal) (hb : b.Normal)
    (hl : a.length = b.length) (ht : a.sampleType.merge b.sampleType = .ok t) :
    ∃ y, stack a b = .ok y ∧ IsStack t a b 0 a.length y :=
  exists_stackWithin _ ha hb hl ht

theorem stack_ok {a b y : Instruction α} (h : stack a b = .ok y) :
    a.length = b.length ∧ ∃ t, a.sampleType.merge b.sampleType = .ok t := by
  unfold stack stackWithin at h
  split at h
  . contradiction
  . next hl =>
    obtain ⟨t, ht, _⟩ := Outcome.bind_eq_ok_iff.mp h
    exact ⟨not_not.mp hl, t, ht⟩

theorem normal_of_stack {a b y : Instruction α} (ha : a.Normal) (hb : b.Normal)
    (h : stack a b = .ok y) : y.Normal ∧ y.length = a.length := by
  obtain ⟨hl, t, ht⟩ := stack_ok h
  obtain ⟨z, hz, hs⟩ := exists_stack ha hb hl ht
  cases hz.symm.trans h
  exact ⟨hs.typed.normal, hs.length⟩

/--
That `y` is what comes out when the instructions `xs` are stacked two at a time, however they are
grouped.
-/
inductive IsGrouping : List (Instruction α) → Instruction α → Prop where
  | single (x : Instruction α) : IsGrouping [x] x
  | stack {xs ys : List (Instruction α)} {a b y : Instruction α} (ha : IsGrouping xs a)
      (hb : IsGrouping ys b) (h : stack a b = .ok y) : IsGrouping (xs ++ ys) y

theorem isGrouping_stackAll_go {fuel : Nat} {xs : List (Instruction α)} {y : Instruction α}
    (hfuel : xs.length ≤ fuel) (h : stackAll.go fuel xs = .ok y) : IsGrouping xs y := by
  induction fuel generalizing xs y with
  | zero =>
    rw [List.length_eq_zero_iff.mp (Nat.le_zero.mp hfuel)] at h
    contradiction
  | succ fuel ih =>
    unfold stackAll.go at h
    split at h
    . contradiction
    . cases h
      exact .single _
    . contradiction
    . next xs _ _ _ hf hnil hsingle =>
      cases hf
      obtain ⟨left, hleft, h⟩ := Outcome.bind_eq_ok_iff.mp h
      obtain ⟨right, hright, h⟩ := Outcome.bind_eq_ok_iff.mp h
      -- both halves are shorter than the whole
      have htwo : 2 ≤ xs.length := by
        match xs, hnil, hsingle with
        | [], hnil, _ => exact absurd rfl hnil
        | [x], _, hsingle => exact absurd rfl (hsingle x)
        | _ :: _ :: _, _, _ => simp
      have hl := ih (by rw [List.length_take]; omega) hleft
      have hr := ih (by rw [List.length_drop]; omega) hright
      rw [← List.take_append_drop (xs.length / 2) xs]
      exact .stack hl hr h

theorem isGrouping_stackAll {xs : List (Instruction α)} {y : Instruction α}
    (h : stackAll xs = .ok y) : IsGrouping xs y :=
  isGrouping_stackAll_go (Nat.le_refl _) h

theorem IsGrouping.normal_and_length_eq {xs : List (Instruction α)} {y : Instruction α}
    (h : IsGrouping xs y) (hxs : ∀ x ∈ xs, x.Normal) :
    y.Normal ∧ ∀ x ∈ xs, x.length = y.length := by
  induction h with
  | single x => simpa using hxs
  | stack _ _ h iha ihb =>
    obtain ⟨hxs, hys⟩ := List.forall_mem_append.mp hxs
    obtain ⟨ha, hla⟩ := iha hxs
    obtain ⟨hb, hlb⟩ := ihb hys
    obtain ⟨hy, hl⟩ := normal_of_stack ha hb h
    refine ⟨hy, List.forall_mem_append.mpr ⟨fun x hx => ?_, fun x hx => ?_⟩⟩
    . rw [hla x hx, hl]
    . rw [hlb x hx, hl, (stack_ok h).1]

/--
Instructions that can be stacked have one length.
-/
theorem stackAll_ok {xs : List (Instruction α)} {y : Instruction α} (hxs : ∀ x ∈ xs, x.Normal)
    (h : stackAll xs = .ok y) : y.Normal ∧ ∀ x ∈ xs, x.length = y.length :=
  (isGrouping_stackAll h).normal_and_length_eq hxs

end Instruction

end Waveplan
