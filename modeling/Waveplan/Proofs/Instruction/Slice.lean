import Waveplan.Proofs.Instruction.Node
import Waveplan.Instruction.Slice

/-!
This module contains the parts of instructions between two ticks: they are in normal form, have the
length that was asked for, and hold the samples of the instruction at those ticks.
-/

namespace Waveplan

theorem roundUp_eq {period : Nat} (h : 0 < period) (tick : Nat) :
    (tick + period - 1) / period * period
      = tick + if tick % period = 0 then 0 else period - tick % period := by
  have hd := Nat.div_add_mod tick period
  have hm := Nat.mod_lt tick h
  generalize tick / period = k at *
  generalize tick % period = r at *
  subst hd
  split
  . next h₀ =>
    rw [h₀, Nat.add_zero, Nat.add_sub_assoc h, Nat.mul_add_div h, Nat.div_eq_of_lt (by omega),
      Nat.add_zero, Nat.mul_comm]
  . next h₀ =>
    have : period * k + r + period - 1 = period * (k + 1) + (r - 1) := by
      rw [Nat.mul_succ]
      omega
    rw [this, Nat.mul_add_div h, Nat.div_eq_of_lt (by omega), Nat.add_zero, Nat.mul_comm,
      Nat.mul_succ]
    omega

theorem roundUp_le {period start stop : Nat} (h : 0 < period) (hs : start < stop)
    (hd : start / period ≠ (stop - 1) / period) :
    (start + period - 1) / period ≤ stop / period := by
  have : start / period < (stop - 1) / period :=
    Nat.lt_of_le_of_ne (Nat.div_le_div_right (by omega)) hd
  have hl : start / period + 1 ≤ stop / period :=
    Nat.le_trans this (Nat.div_le_div_right (by omega))
  apply Nat.le_trans _ hl
  rw [← Nat.add_div_right _ h]
  exact Nat.div_le_div_right (by omega)

theorem samePeriod_eq {period start stop : Nat} (h : 0 < period) (hs : start < stop)
    (hd : start / period = (stop - 1) / period) :
    start = start / period * period + start % period
      ∧ start % period < stop - start / period * period
      ∧ stop - start / period * period ≤ period := by
  have h₁ := Nat.div_add_mod start period
  have h₂ := Nat.div_add_mod (stop - 1) period
  have h₃ := Nat.mod_lt (stop - 1) h
  rw [← hd] at h₂
  rw [Nat.mul_comm] at h₁ h₂
  omega

theorem Ramp.wellFormed_slice {α : Type} [Number α] {r : Ramp α} (hr : r.WellFormed)
    (start stop : Nat) : (r.slice start stop).WellFormed := by
  have hl (i : Nat) : (r.valuesAt i).length = r.sampleType.width := by
    rw [valuesAt, List.length_zipWith, hr.start, hr.stop, Nat.min_self]
  refine ⟨hr.isInterpolable, hl start, ?_⟩
  simp only [slice]
  split
  . exact hr.stop
  . exact hl stop

namespace Instruction

variable {α : Type} [Number α]

theorem forall_mem_subParts {P : Instruction α → Prop} {xs : List (Instruction α)}
    (h : ∀ x ∈ xs, ∀ start stop, start < stop → stop ≤ x.length → P (x.sub start stop))
    (start stop : Nat) : ∀ y ∈ subParts xs start stop, P y := by
  induction xs generalizing start stop with
  | nil => simp [subParts]
  | cons x xs ih =>
    obtain ⟨hx, h⟩ := List.forall_mem_cons.mp h
    intro y hy
    rw [subParts] at hy
    rcases List.mem_append.mp hy with hy | hy
    . split at hy
      . next hs =>
        rw [List.mem_singleton.mp hy]
        exact hx _ _ (Nat.lt_min.mpr ⟨hs.2, hs.1⟩) (Nat.min_le_right _ _)
      . contradiction
    . split at hy
      . exact ih h _ _ y hy
      . contradiction

theorem totalLength_subParts {xs : List (Instruction α)}
    (h : ∀ x ∈ xs, ∀ start stop, start < stop → stop ≤ x.length →
      (x.sub start stop).length = stop - start)
    {start stop : Nat} (hs : stop ≤ totalLength xs) :
    totalLength (subParts xs start stop) = stop - start := by
  induction xs generalizing start stop with
  | nil => simp_all [subParts, totalLength]
  | cons x xs ih =>
    obtain ⟨hx, h⟩ := List.forall_mem_cons.mp h
    rw [totalLength] at hs
    have hfirst : totalLength (if start < x.length ∧ start < stop
        then [x.sub start (Nat.min stop x.length)] else []) = Nat.min stop x.length - start := by
      split
      . next hl =>
        have := hx _ _ (Nat.lt_min.mpr ⟨hl.2, hl.1⟩) (Nat.min_le_right stop x.length)
        simpa [totalLength] using this
      . have : Nat.min stop x.length = min stop x.length := rfl
        rw [totalLength]
        omega
    have : Nat.min stop x.length = min stop x.length := rfl
    simp only [subParts, totalLength_append, hfirst]
    split
    . rw [ih h (by omega)]
      omega
    . rw [totalLength]
      omega

theorem sampleAtParts_subParts {xs : List (Instruction α)}
    (hl : ∀ x ∈ xs, ∀ start stop, start < stop → stop ≤ x.length →
      (x.sub start stop).length = stop - start)
    (h : ∀ x ∈ xs, ∀ start stop i, start < stop → stop ≤ x.length → i < stop - start →
      (x.sub start stop).sampleAt i = x.sampleAt (start + i))
    {start stop i : Nat} (hs : stop ≤ totalLength xs) (hi : i < stop - start) :
    sampleAtParts (subParts xs start stop) i = sampleAtParts xs (start + i) := by
  induction xs generalizing start stop i with
  | nil => simp [totalLength] at hs; omega
  | cons x xs ih =>
    obtain ⟨hlx, hl⟩ := List.forall_mem_cons.mp hl
    obtain ⟨hx, h⟩ := List.forall_mem_cons.mp h
    rw [totalLength] at hs
    have hm : Nat.min stop x.length = min stop x.length := rfl
    by_cases hfirst : start < x.length
    . have hlast := Nat.lt_min.mpr ⟨show start < stop by omega, hfirst⟩
      have hn := hlx _ _ hlast (Nat.min_le_right _ _)
      rw [subParts, if_pos ⟨hfirst, by omega⟩, List.cons_append, List.nil_append, sampleAtParts, hn,
        sampleAtParts]
      by_cases hlt : start + i < x.length
      . rw [if_pos (by omega), if_pos hlt]
        exact hx _ _ _ hlast (Nat.min_le_right _ _) (by omega)
      . rw [if_neg (by omega), if_neg hlt, if_pos (by omega), ih hl h (by omega) (by omega)]
        congr 1
        omega
    . rw [subParts, if_neg (by omega), List.nil_append, if_pos (by omega), sampleAtParts,
        if_neg (by omega), ih hl h (by omega) (by omega)]
      congr 1
      omega

/--
What a repetition becomes when it is cut: a rest of its body, whole repetitions, and the beginning
of its body.
-/
def cutPeriods (body : Instruction α) (start stop : Nat) : List (Instruction α) :=
  let rest :=
    if start % body.length = 0 then [] else [body.sub (start % body.length) body.length]
  let whole := body.times (stop / body.length - (start + body.length - 1) / body.length)
  let beginning := if stop % body.length = 0 then [] else [body.sub 0 (stop % body.length)]
  rest ++ whole :: beginning

theorem sub_repeated {n start stop : Nat} {body : Instruction α}
    (h : ¬(start = 0 ∧ stop = (repeated n body).length)) :
    (repeated n body).sub start stop
      = if start / body.length = (stop - 1) / body.length then
          body.sub (start % body.length) (stop - start / body.length * body.length)
        else
          join body.sampleType (cutPeriods body start stop) := by
  rw [sub, if_neg h]
  rfl

theorem forall_mem_cutPeriods {P : Instruction α → Prop} {body : Instruction α}
    (hpos : 0 < body.length)
    (h : ∀ start stop, start < stop → stop ≤ body.length → P (body.sub start stop))
    (hw : ∀ n, P (body.times n)) (start stop : Nat) : ∀ y ∈ cutPeriods body start stop, P y := by
  have h₁ := Nat.mod_lt start hpos
  have h₂ := Nat.mod_lt stop hpos
  intro y hy
  rcases List.mem_append.mp hy with hy | hy
  . split at hy
    . contradiction
    . rw [List.mem_singleton.mp hy]
      exact h _ _ h₁ (Nat.le_refl _)
  . rcases List.mem_cons.mp hy with rfl | hy
    . exact hw _
    . split at hy
      . contradiction
      . rw [List.mem_singleton.mp hy]
        exact h _ _ (by omega) (by omega)

section Periods

variable {body : Instruction α} {start stop : Nat}

theorem totalLength_cutPeriods (hpos : 0 < body.length) (hs : start < stop)
    (hd : start / body.length ≠ (stop - 1) / body.length)
    (hl : ∀ start stop, start < stop → stop ≤ body.length →
      (body.sub start stop).length = stop - start) :
    totalLength (cutPeriods body start stop) = stop - start := by
  have hup := roundUp_eq hpos start
  have hle := Nat.mul_le_mul_right body.length (roundUp_le hpos hs hd)
  have hstop := Nat.div_add_mod' stop body.length
  have h₁ := Nat.mod_lt start hpos
  have h₂ := Nat.mod_lt stop hpos
  have hrest : totalLength (if start % body.length = 0 then []
      else [body.sub (start % body.length) body.length])
      = if start % body.length = 0 then 0 else body.length - start % body.length := by
    split
    . rfl
    . simp [totalLength, hl _ _ h₁ (Nat.le_refl _)]
  have hbeginning : totalLength (if stop % body.length = 0 then []
      else [body.sub 0 (stop % body.length)]) = stop % body.length := by
    split
    . next h => rw [h]; rfl
    . simp [totalLength, hl 0 (stop % body.length) (by omega) (by omega)]
  simp only [cutPeriods, totalLength_append, totalLength, hrest, hbeginning, length_times,
    Nat.sub_mul]
  omega

theorem sampleAtParts_cutPeriods (hpos : 0 < body.length) (hs : start < stop)
    (hd : start / body.length ≠ (stop - 1) / body.length)
    (hl : ∀ start stop, start < stop → stop ≤ body.length →
      (body.sub start stop).length = stop - start)
    (h : ∀ start stop i, start < stop → stop ≤ body.length → i < stop - start →
      (body.sub start stop).sampleAt i = body.sampleAt (start + i))
    {i : Nat} (hi : i < stop - start) :
    sampleAtParts (cutPeriods body start stop) i
      = body.sampleAt ((start + i) % body.length) := by
  have hup := roundUp_eq hpos start
  have hle := Nat.mul_le_mul_right body.length (roundUp_le hpos hs hd)
  have hstart := Nat.div_add_mod' start body.length
  have hstop := Nat.div_add_mod' stop body.length
  have h₁ := Nat.mod_lt start hpos
  have h₂ := Nat.mod_lt stop hpos
  -- after the rest, ticks are counted from the beginning of a period
  have hwhole (j : Nat)
      (hj : j < stop - (start + body.length - 1) / body.length * body.length) :
      sampleAtParts (body.times (stop / body.length - (start + body.length - 1) / body.length)
        :: if stop % body.length = 0 then [] else [body.sub 0 (stop % body.length)]) j
        = body.sampleAt (j % body.length) := by
    rw [sampleAtParts, length_times, Nat.sub_mul]
    split
    . next hlt => exact sampleAt_times (by rwa [Nat.sub_mul])
    . next hge =>
      rw [if_neg (by omega), sampleAtParts_singleton (by rw [hl _ _ (by omega) (by omega)]; omega),
        h _ _ _ (by omega) (by omega) (by omega), Nat.zero_add, ← Nat.sub_mul]
      rw [← Nat.sub_mul] at hge
      congr 1
      conv_rhs => rw [← Nat.sub_add_cancel (Nat.le_of_not_lt hge), Nat.add_mul_mod_self_right]
      rw [Nat.mod_eq_of_lt (by rw [Nat.sub_mul]; omega)]
  rw [cutPeriods]
  by_cases hmod : start % body.length = 0
  . rw [if_pos hmod] at hup ⊢
    rw [List.nil_append, hwhole i (by omega), Nat.add_mod, hmod, Nat.zero_add, Nat.mod_mod]
  . rw [if_neg hmod] at hup ⊢
    have hn := hl _ _ h₁ (Nat.le_refl _)
    rw [List.cons_append, List.nil_append, sampleAtParts, hn]
    split
    . next hlt =>
      rw [h _ _ _ h₁ (Nat.le_refl _) hlt, ← Nat.mod_add_mod, Nat.mod_eq_of_lt (a := _ + i)]
      omega
    . next hge =>
      rw [hwhole _ (by omega)]
      congr 1
      have : start + i = (start + body.length - 1) / body.length * body.length
          + (i - (body.length - start % body.length)) := by omega
      rw [this, Nat.mul_add_mod_self_right]

end Periods

theorem length_sub {x : Instruction α} (hx : x.Normal) {start stop : Nat} (h : start < stop)
    (hs : stop ≤ x.length) : (x.sub start stop).length = stop - start := by
  induction x generalizing start stop with
  | pattern p =>
    rw [sub]
    split
    . next he => rw [he.2, he.1]; rfl
    . rfl
  | ramp r =>
    rw [sub]
    split
    . next he => rw [he.2, he.1]; rfl
    . rfl
  | concatenated xs ih =>
    obtain ⟨_, _, hparts⟩ := normal_concatenated.mp hx
    rw [sub]
    split
    . next he => rw [he.2, he.1]; rfl
    . rw [length_join]
      exact totalLength_subParts (fun x hm _ _ h hs => ih x hm (hparts x hm).normal h hs) hs
  | repeated n body ih =>
    obtain ⟨_, hpos, _, hbody⟩ := normal_repeated.mp hx
    by_cases he : start = 0 ∧ stop = (repeated n body).length
    . rw [sub, if_pos he, he.1, he.2]
      rfl
    . rw [sub_repeated he]
      split
      . next hd =>
        obtain ⟨h₁, h₂, h₃⟩ := samePeriod_eq hpos h hd
        rw [ih hbody h₂ h₃]
        omega
      . next hd =>
        rw [length_join]
        exact totalLength_cutPeriods hpos h hd fun _ _ h hs => ih hbody h hs

theorem typed_sub {x : Instruction α} {t : SampleType} (hx : x.Typed t) {start stop : Nat}
    (h : start < stop) (hs : stop ≤ x.length) : (x.sub start stop).Typed t := by
  induction x generalizing t start stop with
  | pattern p =>
    obtain ⟨hx, rfl⟩ := hx
    rw [sub]
    split
    . exact hx.typed
    . exact typed_pattern (Pattern.wellFormed_slice (normal_pattern.mp hx) hs)
  | ramp r =>
    obtain ⟨hx, rfl⟩ := hx
    rw [sub]
    split
    . exact hx.typed
    . have hr := Ramp.wellFormed_slice (normal_ramp.mp hx).1 start stop
      exact ⟨normal_ramp.mpr ⟨hr, Nat.sub_pos_of_lt h⟩, rfl⟩
  | concatenated xs ih =>
    obtain ⟨hx, rfl⟩ := hx
    obtain ⟨_, _, hparts⟩ := normal_concatenated.mp hx
    rw [sub]
    split
    . exact hx.typed
    . apply typed_join
      exact forall_mem_subParts (fun x hm _ _ h hs => ih x hm (hparts x hm).typed h hs) _ _
  | repeated n body ih =>
    obtain ⟨_, hpos, _, hbody⟩ := normal_repeated.mp hx.normal
    have hbody : body.Typed t := ⟨hbody, hx.sampleType⟩
    by_cases he : start = 0 ∧ stop = (repeated n body).length
    . rw [sub, if_pos he]
      exact hx
    . rw [sub_repeated he]
      split
      . next hd =>
        obtain ⟨_, h₂, h₃⟩ := samePeriod_eq hpos h hd
        exact ih hbody h₂ h₃
      . rw [hbody.sampleType]
        apply typed_join
        exact forall_mem_cutPeriods hpos (fun _ _ h hs => ih hbody h hs)
          (fun m => typed_times hbody m) _ _

/--
A property of ramps that their slices keep, and under which a slice plays the samples of the ramp.
-/
structure IsDivisible (Q : Ramp α → Prop) : Prop where
  slice {r : Ramp α} {start stop : Nat} : r.WellFormed → Q r → start < stop → stop ≤ r.length →
    Q (r.slice start stop)
  sample {r : Ramp α} {start stop i : Nat} : r.WellFormed → Q r → start < stop →
    stop ≤ r.length → i < stop - start → (r.slice start stop).sample i = r.sample (start + i)

theorem isDivisible_false : IsDivisible fun _ : Ramp α => False :=
  ⟨fun _ h => h.elim, fun _ h => h.elim⟩

section Divisible

variable {Q : Ramp α → Prop} (hQ : IsDivisible Q)

include hQ

theorem rampsSatisfy_sub {x : Instruction α} (hx : x.Normal) (hr : x.RampsSatisfy Q)
    {start stop : Nat} (h : start < stop) (hs : stop ≤ x.length) :
    (x.sub start stop).RampsSatisfy Q := by
  induction x generalizing start stop with
  | pattern p =>
    rw [sub]
    split
    . exact hr
    . exact rampsSatisfy_pattern _
  | ramp r =>
    rw [sub]
    split
    . exact hr
    . exact rampsSatisfy_ramp.mpr
        (hQ.slice (normal_ramp.mp hx).1 (rampsSatisfy_ramp.mp hr) h hs)
  | concatenated xs ih =>
    obtain ⟨_, _, hparts⟩ := normal_concatenated.mp hx
    have hr' := rampsSatisfy_concatenated.mp hr
    rw [sub]
    split
    . exact hr
    . apply rampsSatisfy_join
      exact forall_mem_subParts
        (fun x hm _ _ h hs => ih x hm (hparts x hm).normal (hr' x hm) h hs) _ _
  | repeated n body ih =>
    obtain ⟨_, hpos, _, hbody⟩ := normal_repeated.mp hx
    have hr' := rampsSatisfy_repeated.mp hr
    by_cases he : start = 0 ∧ stop = (repeated n body).length
    . rw [sub, if_pos he]
      exact hr
    . rw [sub_repeated he]
      split
      . next hd =>
        obtain ⟨_, h₂, h₃⟩ := samePeriod_eq hpos h hd
        exact ih hbody hr' h₂ h₃
      . apply rampsSatisfy_join
        exact forall_mem_cutPeriods hpos (fun _ _ h hs => ih hbody hr' h hs)
          (fun m => rampsSatisfy_times hr' m) _ _

theorem sampleAt_sub {x : Instruction α} (hx : x.Normal) (hr : x.RampsSatisfy Q)
    {start stop i : Nat} (h : start < stop) (hs : stop ≤ x.length) (hi : i < stop - start) :
    (x.sub start stop).sampleAt i = x.sampleAt (start + i) := by
  induction x generalizing start stop i with
  | pattern p =>
    rw [sub]
    split
    . next he => rw [he.1, Nat.zero_add]
    . rw [sampleAt, sampleAt, Pattern.sample_slice p (by omega)]
  | ramp r =>
    rw [sub]
    split
    . next he => rw [he.1, Nat.zero_add]
    . rw [sampleAt, sampleAt,
        hQ.sample (normal_ramp.mp hx).1 (rampsSatisfy_ramp.mp hr) h hs hi]
  | concatenated xs ih =>
    obtain ⟨_, _, hparts⟩ := normal_concatenated.mp hx
    have hr := rampsSatisfy_concatenated.mp hr
    rw [sub]
    split
    . next he => rw [he.1, Nat.zero_add]
    . have hl : ∀ x ∈ xs, ∀ start stop, start < stop → stop ≤ x.length →
          (x.sub start stop).length = stop - start :=
        fun x hm _ _ h hs => length_sub (hparts x hm).normal h hs
      rw [sampleAt_join, sampleAt]
      . exact sampleAtParts_subParts hl
          (fun x hm _ _ _ h hs hi => ih x hm (hparts x hm).normal (hr x hm) h hs hi) hs hi
      . exact forall_mem_subParts (fun x hm _ _ h hs => typed_sub (hparts x hm).typed h hs) _ _
      . rw [totalLength_subParts hl hs]
        exact hi
  | repeated n body ih =>
    obtain ⟨_, hpos, _, hbody⟩ := normal_repeated.mp hx
    have hr := rampsSatisfy_repeated.mp hr
    by_cases he : start = 0 ∧ stop = (repeated n body).length
    . rw [sub, if_pos he, he.1, Nat.zero_add]
    . rw [sub_repeated he, sampleAt]
      split
      . next hd =>
        -- the slice lies within one period, so no tick of it wraps around
        obtain ⟨h₁, h₂, h₃⟩ := samePeriod_eq hpos h hd
        rw [ih hbody hr h₂ h₃ (by omega), ← Nat.mod_add_mod, Nat.mod_eq_of_lt (a := _ + i)]
        omega
      . next hd =>
        have hl : ∀ start stop, start < stop → stop ≤ body.length →
            (body.sub start stop).length = stop - start := fun _ _ h hs => length_sub hbody h hs
        rw [sampleAt_join]
        . exact sampleAtParts_cutPeriods hpos h hd hl
            (fun _ _ _ h hs hi => ih hbody hr h hs hi) hi
        . exact forall_mem_cutPeriods hpos (fun _ _ h hs => typed_sub hbody.typed h hs)
            (fun m => typed_times hbody.typed m) _ _
        . rw [totalLength_cutPeriods hpos h hd hl]
          exact hi

end Divisible

theorem sliceBy_eq_ok {x y : Instruction α} {start stop step : Int}
    (h : x.sliceBy start stop step = .ok y) :
    ∃ first last, x.sliceBound start = .ok first ∧ x.sliceBound stop = .ok last ∧
      y = if last ≤ first then pattern (.empty x.sampleType) else x.sub first last := by
  unfold sliceBy at h
  split at h
  . contradiction
  . obtain ⟨first, hfirst, h⟩ := Outcome.bind_eq_ok_iff.mp h
    obtain ⟨last, hlast, h⟩ := Outcome.bind_eq_ok_iff.mp h
    refine ⟨first, last, hfirst, hlast, ?_⟩
    split at h
    . next hle =>
      cases h
      rw [if_pos hle]
    . next hle =>
      cases h
      rw [if_neg hle]

omit [Number α] in
theorem sliceBound_eq_ok_iff {x : Instruction α} {i : Int} {n : Nat} :
    x.sliceBound i = .ok n ↔ resolveIndex x.length i = .ok (n : Int) ∧ n ≤ x.length := by
  rw [sliceBound, Outcome.bind_eq_ok_iff]
  constructor
  . rintro ⟨k, hk, h⟩
    split at h
    . contradiction
    . cases h
      rw [Int.toNat_of_nonneg (by omega)]
      exact ⟨hk, by omega⟩
  . rintro ⟨hk, hn⟩
    refine ⟨n, hk, ?_⟩
    rw [if_neg (by omega), Int.toNat_natCast]

omit [Number α] in
theorem sliceBound_le {x : Instruction α} {i : Int} {n : Nat} (h : x.sliceBound i = .ok n) :
    n ≤ x.length :=
  (sliceBound_eq_ok_iff.mp h).2

theorem resolveIndex_natCast (length i : Nat) : resolveIndex length i = .ok (i : Int) :=
  if_neg (by omega)

omit [Number α] in
theorem sliceBound_natCast {x : Instruction α} {i n : Nat} (h : x.sliceBound i = .ok n) :
    n = i := by
  obtain ⟨hn, _⟩ := sliceBound_eq_ok_iff.mp h
  rw [resolveIndex_natCast] at hn
  exact (Int.ofNat.inj (Except.ok.inj hn)).symm

omit [Number α] in
/--
A word that is negative as a signed one bounds no slice: counted from the end of an instruction that
is longer, it is before the first tick.
-/
theorem sliceBound_toSigned {x : Instruction α} {i n : Nat} (hx : x.length < wordModulus)
    (hi : i < x.length) (h : x.sliceBound (Word.toSigned i) = .ok n) : n = i := by
  by_cases hs : i < signedBound
  . rw [Word.toSigned_of_lt hs] at h
    exact sliceBound_natCast h
  . obtain ⟨hn, _⟩ := sliceBound_eq_ok_iff.mp h
    rw [Word.toSigned_of_le (by omega) (by omega), resolveIndex, if_pos (by omega),
      Word.toSigned_of_le (by omega) hx, Word.checkedSigned_eq_ok_iff] at hn
    omega

theorem typed_sliceBy {x y : Instruction α} {t : SampleType} {start stop step : Int}
    (hx : x.Typed t) (h : x.sliceBy start stop step = .ok y) : y.Typed t := by
  obtain ⟨first, last, _, hlast, rfl⟩ := sliceBy_eq_ok h
  split
  . rw [hx.sampleType]
    exact typed_empty t
  . exact typed_sub hx (by omega) (sliceBound_le hlast)

theorem length_slice_zero {x y : Instruction α} {n : Nat} (hx : x.Normal)
    (hl : x.length < wordModulus) (hlt : n < x.length)
    (h : x.slice 0 (Word.toSigned n) = .ok y) : y.length = n := by
  obtain ⟨first, last, hfirst, hlast, rfl⟩ := sliceBy_eq_ok h
  have hle := sliceBound_le hlast
  have hzero : first = 0 := sliceBound_natCast (i := 0) hfirst
  have hn : last = n := sliceBound_toSigned hl hlt hlast
  subst hzero hn
  split
  . next h₀ =>
    have := Nat.le_zero.mp h₀
    subst this
    rfl
  . rw [length_sub hx (by omega) hle, Nat.sub_zero]

end Instruction

end Waveplan
