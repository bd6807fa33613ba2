import Waveplan.Proofs.Instruction.Concatenate
import Waveplan.Clock

/-!
This module contains that triggers and clocks are levels in normal form, how long they are, and that
a clock pulses at every tick at which its target changes.
-/

namespace Waveplan.Clock

open Instruction

variable {α : Type} [Number α]

theorem normal_play {xs : List (Instruction α)} {y : Instruction α} (hxs : ∀ x ∈ xs, x.Normal)
    (h : play xs = .ok y) : y.Normal :=
  normal_concatenate hxs ((play_eq_ok_iff_fits hxs).mp (Outcome.mapError_eq_ok_iff.mp h)).1

theorem play_eq_ok_iff {xs : List (Instruction α)} {y : Instruction α}
    (hxs : ∀ x ∈ xs, x.Typed .bool) :
    play xs = .ok y ↔ xs ≠ [] ∧ totalLength xs < wordModulus ∧ y = join .bool xs := by
  rw [play, Outcome.mapError_eq_ok_iff]
  exact play_eq_ok_iff_join hxs

theorem play_of_le {xs : List (Instruction α)} (hne : xs ≠ []) (hxs : ∀ x ∈ xs, x.Typed .bool)
    (h : wordModulus ≤ totalLength xs) : play xs = .error (.instruction .overflow) := by
  have hplay : Instruction.play xs = .error .overflow := Instruction.play_of_le hne hxs h
  rw [play, hplay]
  rfl

theorem typed_play {xs : List (Instruction α)} {y : Instruction α} (hxs : ∀ x ∈ xs, x.Typed .bool)
    (h : play xs = .ok y) : y.Typed .bool := by
  obtain ⟨_, _, rfl⟩ := (play_eq_ok_iff hxs).mp h
  exact typed_join hxs

theorem length_play_lt {xs : List (Instruction α)} {y : Instruction α}
    (hxs : ∀ x ∈ xs, x.Typed .bool) (h : play xs = .ok y) : y.length < wordModulus := by
  obtain ⟨_, hl, rfl⟩ := (play_eq_ok_iff hxs).mp h
  rwa [length_join]

omit [Number α] in
theorem typed_pulse_level {pulse : Instruction α} (hp : pulse.Typed .bool) (n : Nat) :
    ∀ x ∈ [pulse, .level false n], x.Typed .bool := by
  simp only [List.mem_cons, List.not_mem_nil, or_false, forall_eq_or_imp, forall_eq]
  exact ⟨hp, typed_level _ _⟩

omit [Number α] in
theorem typed_between_levels {x : Instruction α} (hx : x.Typed .bool) (before after : Nat) :
    ∀ z ∈ [.level false before, x, .level false after], z.Typed .bool := by
  simp only [List.mem_cons, List.not_mem_nil, or_false, forall_eq_or_imp, forall_eq]
  exact ⟨typed_level _ _, hx, typed_level _ _⟩

omit [Number α] in
theorem typed_levels (high low : Nat) :
    ∀ x ∈ [(level true high : Instruction α), .level false low], x.Typed .bool :=
  typed_pulse_level (typed_level true high) low

theorem play_levels_ok {high low : Nat} {y : Instruction α}
    (h : play [.level true high, .level false low] = .ok y) :
    y.Typed .bool ∧ y.length = high + low := by
  obtain ⟨_, _, rfl⟩ := (play_eq_ok_iff (typed_levels high low)).mp h
  exact ⟨typed_join (typed_levels high low), by simp [totalLength]⟩

omit [Number α] in
/--
Ticks are divided like natural numbers, unless the doubled time step of the master does not fit a
word.
-/
theorem highLowClicks_eq_ok_iff {slave master : TimeStep} {period high low : Nat} :
    highLowClicks (α := α) slave master = .ok (period, high, low)
      ↔ 2 * master.ns.toNat < wordModulus ∧ 2 ≤ period
        ∧ slave.ns.toNat = period * master.ns.toNat
        ∧ high = (period + 1) / 2 ∧ low = period - high := by
  have hmod : slave.ns % master.ns = 0 ↔ slave.ns.toNat % master.ns.toNat = 0 := by
    rw [← UInt64.toNat_inj, UInt64.toNat_mod]
    rfl
  have hpos := master.ns_pos
  rw [highLowClicks, Outcome.bind_eq_ok_iff]
  simp only [Word.checked_eq_ok_iff, UInt64.toNat_div]
  constructor
  . rintro ⟨_, ⟨hw, rfl⟩, h⟩
    split at h
    . contradiction
    . next hlt =>
      split at h
      . contradiction
      . next hm =>
        cases h
        have hz := hmod.mp (not_not.mp hm)
        have hs := (Nat.div_mul_cancel (Nat.dvd_of_mod_eq_zero hz)).symm
        refine ⟨hw, ?_, hs, rfl, rfl⟩
        rw [hs] at hlt
        exact Nat.le_of_mul_le_mul_right (Nat.le_of_not_lt hlt) hpos
  . rintro ⟨hw, htwo, hs, rfl, rfl⟩
    refine ⟨_, ⟨hw, rfl⟩, ?_⟩
    have hle := Nat.mul_le_mul_right master.ns.toNat htwo
    rw [if_neg (by omega), if_neg (not_not.mpr (hmod.mpr (by rw [hs, Nat.mul_mod_left]))), hs,
      Nat.mul_div_cancel _ hpos]

theorem pulse_ok {slave master : TimeStep} {y : Instruction α}
    (h : pulse slave master = .ok y) :
    y.Typed .bool
      ∧ ∃ high low, highLowClicks (α := α) slave master = .ok (y.length, high, low) := by
  obtain ⟨⟨period, high, low⟩, hp, h⟩ := Outcome.bind_eq_ok_iff.mp h
  obtain ⟨hn, hl⟩ := play_levels_ok h
  refine ⟨hn, high, low, ?_⟩
  obtain ⟨_, _, _, rfl, rfl⟩ := highLowClicks_eq_ok_iff.mp hp
  rw [hp, hl]
  congr 2
  omega

theorem halfPulse_ok {device : String} {length : Nat} {y : Instruction α}
    (h : halfPulse device length = .ok y) : y.Typed .bool ∧ y.length = length := by
  unfold halfPulse at h
  dsimp only at h
  split at h
  . contradiction
  . obtain ⟨hn, hl⟩ := play_levels_ok h
    exact ⟨hn, by omega⟩

/--
What pulses and levels have in common, and keep when they are played one after the other, is true of
a clock.
-/
theorem adaptive_preserves {P : Instruction α → Prop} {pulse target y : Instruction α}
    (hp : P pulse) (htimes : ∀ n, P (pulse.times n)) (hlevel : ∀ n, P (.level false n))
    (hplay : ∀ xs z, (∀ x ∈ xs, P x) → play xs = .ok z → P z)
    (h : adaptive pulse target = .ok y) : P y := by
  induction target generalizing y with
  | pattern p =>
    rw [adaptive] at h
    cases h
    exact htimes _
  | ramp r =>
    rw [adaptive] at h
    contradiction
  | concatenated xs ih =>
    rw [adaptive] at h
    obtain ⟨ys, hys, h⟩ := Outcome.bind_eq_ok_iff.mp h
    rw [adaptiveAll_eq, Outcome.mapM_eq_ok_iff] at hys
    exact hplay _ _ (Outcome.forall_mem_of_forall₂ (Outcome.forall₂_imp_of_mem hys
      fun x hm y hy => ih x hm hy)) h
  | repeated n body _ =>
    rw [adaptive] at h
    split at h
    . obtain ⟨_, _, h⟩ := Outcome.bind_eq_ok_iff.mp h
      apply hplay _ _ _ h
      simp only [List.mem_cons, List.not_mem_nil, or_false, forall_eq_or_imp, forall_eq]
      exact ⟨hp, hlevel _⟩
    . contradiction

theorem normal_adaptive {pulse target y : Instruction α} (hp : pulse.Normal)
    (h : adaptive pulse target = .ok y) : y.Normal :=
  adaptive_preserves hp (fun n => (typed_times hp.typed n).normal)
    (fun n => (typed_level false n).normal) (fun _ _ => normal_play) h

/--
A clock is made of levels, whatever it clocks.
-/
theorem typed_adaptive {pulse target y : Instruction α} (hp : pulse.Typed .bool)
    (h : adaptive pulse target = .ok y) : y.Typed .bool :=
  adaptive_preserves hp (typed_times hp) (typed_level false) (fun _ _ => typed_play) h

theorem follow_eq_ok_iff {pulse target y : Instruction α} (hp : pulse.Typed .bool) :
    follow pulse target = .ok y ↔ adaptive pulse target = .ok y ∧ y.length < wordModulus := by
  rw [follow, Outcome.bind_eq_ok_iff]
  simp only [Outcome.mapError_eq_ok_iff]
  constructor
  . rintro ⟨x, hx, h⟩
    obtain ⟨hl, rfl⟩ := (fit_eq_ok_iff (typed_adaptive hp hx).normal).mp h
    exact ⟨hx, hl⟩
  . rintro ⟨hy, hl⟩
    exact ⟨y, hy, fit_of_lt (typed_adaptive hp hy).normal hl⟩

section Windows

theorem sampleAt_levels {high low i : Nat} (hi : i < high + low) :
    (join .bool [level true high, level false low] : Instruction α).sampleAt i
      = ⟨[.bool (decide (i < high))]⟩ := by
  rw [sampleAt_join (typed_levels high low) (by simpa [totalLength] using hi), sampleAtParts,
    sampleAtParts, length_level, length_level]
  by_cases hh : i < high
  . rw [if_pos hh, sampleAt_level _ hh, decide_eq_true hh]
  . rw [if_neg hh, if_pos (by omega), sampleAt_level _ (by omega), decide_eq_false hh]

/--
A pulse begins high and ends low.
-/
theorem sampleAt_pulse {slave master : TimeStep} {y : Instruction α}
    (h : pulse slave master = .ok y) :
    2 ≤ y.length ∧ y.sampleAt 0 = ⟨[.bool true]⟩
      ∧ y.sampleAt (y.length - 1) = ⟨[.bool false]⟩ := by
  obtain ⟨⟨period, high, low⟩, hclicks, h⟩ := Outcome.bind_eq_ok_iff.mp h
  obtain ⟨_, htwo, _, hhigh, hlow⟩ := highLowClicks_eq_ok_iff.mp hclicks
  obtain ⟨_, hl⟩ := play_levels_ok h
  obtain ⟨_, _, rfl⟩ := (play_eq_ok_iff (typed_levels high low)).mp h
  rw [hl]
  refine ⟨by omega, ?_, ?_⟩
  . rw [sampleAt_levels (by omega), decide_eq_true (by omega)]
  . rw [sampleAt_levels (by omega), decide_eq_false (by omega)]

/--
What a clock plays during the tick `k` of its target: a pulse, or nothing if the target holds its
sample.
-/
def IsWindow (clock target : Nat → Sample α) (pulse : Instruction α) (k : Nat) : Prop :=
  (∀ i < pulse.length, clock (k * pulse.length + i) = pulse.sampleAt i)
    ∨ (k ≠ 0 ∧ target k = target (k - 1))
      ∧ ∀ i < pulse.length, clock (k * pulse.length + i) = ⟨[.bool false]⟩

variable {pulse : Instruction α} {n k : Nat}

theorem IsWindow.shift {clock target clock' target' : Nat → Sample α}
    (h : IsWindow clock target pulse k)
    (hclock : ∀ i < pulse.length,
      clock' ((n + k) * pulse.length + i) = clock (k * pulse.length + i))
    (htarget : target' (n + k) = target k)
    (hbefore : k ≠ 0 → target' (n + k - 1) = target (k - 1)) :
    IsWindow clock' target' pulse (n + k) := by
  rcases h with h | ⟨⟨hk, hs⟩, h⟩
  . left
    intro i hi
    rw [hclock i hi, h i hi]
  . right
    refine ⟨⟨by omega, by rw [htarget, hbefore hk, hs]⟩, fun i hi => ?_⟩
    rw [hclock i hi, h i hi]

omit [Number α] in
theorem window_lt {m : Nat} (hk : k < n) {i : Nat} (hi : i < m) : k * m + i < n * m := by
  have := Nat.mul_le_mul_right m (Nat.succ_le_of_lt hk)
  rw [Nat.succ_mul] at this
  omega

/--
A clock that pulses at every tick at which its target changes.
-/
structure Clocks (pulse target clock : Instruction α) : Prop where
  length : clock.length = target.length * pulse.length
  window : ∀ k < target.length, IsWindow clock.sampleAt target.sampleAt pulse k

theorem isWindow_parts {xs ys : List (Instruction α)} (h : List.Forall₂ (Clocks pulse) xs ys)
    (hk : k < totalLength xs) : IsWindow (sampleAtParts ys) (sampleAtParts xs) pulse k := by
  induction h generalizing k with
  | nil => simp [totalLength] at hk
  | @cons x y xs ys hxy _ ih =>
    obtain ⟨hl, hwindow⟩ := hxy
    by_cases hx : k < x.length
    . rw [← Nat.zero_add k]
      apply (hwindow k hx).shift
      . intro i hi
        rw [Nat.zero_add, sampleAtParts, if_pos (by rw [hl]; exact window_lt hx hi)]
      . rw [Nat.zero_add, sampleAtParts, if_pos hx]
      . intro _
        rw [Nat.zero_add, sampleAtParts, if_pos (by omega)]
    . obtain ⟨m, rfl⟩ := Nat.exists_eq_add_of_le (Nat.le_of_not_lt hx)
      rw [totalLength] at hk
      apply (ih (by omega)).shift
      . intro i _
        rw [sampleAtParts, hl, Nat.add_mul, if_neg (by omega)]
        congr 1
        omega
      . rw [sampleAtParts, if_neg (by omega), Nat.add_sub_cancel_left]
      . intro _
        rw [sampleAtParts, if_neg (by omega)]
        congr 1
        omega

theorem clocks_times (p : Pattern α) : Clocks pulse (.pattern p) (pulse.times p.length) where
  length := by simp
  window k hk := by
    left
    intro i hi
    rw [length_pattern] at hk
    rw [sampleAt_times (window_lt hk hi), Nat.mul_add_mod', Nat.mod_eq_of_lt hi]

theorem clocks_join {xs ys : List (Instruction α)} (hys : ∀ y ∈ ys, y.Typed .bool)
    (h : List.Forall₂ (Clocks pulse) xs ys) : Clocks pulse (.concatenated xs) (join .bool ys) := by
  have hl : totalLength ys = totalLength xs * pulse.length :=
    totalLength_mul_of_forall₂ (h.imp fun _ _ h => h.length)
  refine ⟨by rw [length_join, hl, length_concatenated], fun k hk => ?_⟩
  rw [length_concatenated] at hk
  rw [← Nat.zero_add k]
  apply (isWindow_parts h hk).shift
  . intro i hi
    rw [Nat.zero_add, sampleAt_join hys (by rw [hl]; exact window_lt hk hi)]
  . rw [Nat.zero_add, sampleAt]
  . intro _
    rw [Nat.zero_add, sampleAt]

/--
A value that is held takes one pulse, and no more of them while it is held.
-/
theorem clocks_hold {body : Instruction α} (hp : pulse.Typed .bool) (hb : body.length = 1)
    (hn : 0 < n) : Clocks pulse (.repeated n body)
      (join .bool [pulse, .level false ((n - 1) * pulse.length)]) := by
  have htyped := typed_pulse_level hp ((n - 1) * pulse.length)
  have hl : totalLength [pulse, .level false ((n - 1) * pulse.length)] = n * pulse.length := by
    obtain ⟨m, rfl⟩ : ∃ m, n = m + 1 := ⟨n - 1, by omega⟩
    simp only [totalLength, length_level, Nat.add_sub_cancel, Nat.add_mul]
    omega
  refine ⟨by rw [length_join, hl, length_repeated, hb, Nat.mul_one], fun k hk => ?_⟩
  rw [length_repeated, hb, Nat.mul_one] at hk
  by_cases h₀ : k = 0
  . left
    intro i hi
    rw [sampleAt_join htyped (by rw [hl]; exact window_lt hk hi), h₀, Nat.zero_mul,
      Nat.zero_add, sampleAtParts, if_pos hi]
  . right
    refine ⟨⟨h₀, by rw [sampleAt, sampleAt, hb, Nat.mod_one, Nat.mod_one]⟩, fun i hi => ?_⟩
    have hlt := window_lt hk hi
    rw [← hl] at hlt
    have hpulse : pulse.length ≤ k * pulse.length :=
      Nat.le_mul_of_pos_left _ (Nat.pos_of_ne_zero h₀)
    have hlow : k * pulse.length + i - pulse.length < (n - 1) * pulse.length := by
      simp only [totalLength, length_level] at hlt
      omega
    rw [sampleAt_join htyped hlt, sampleAtParts, if_neg (by omega),
      sampleAtParts_singleton (by rwa [length_level]), sampleAt_level _ hlow]

theorem clocks_adaptive {target y : Instruction α} (hp : pulse.Typed .bool) (ht : target.Normal)
    (h : adaptive pulse target = .ok y) : Clocks pulse target y := by
  induction target generalizing y with
  | pattern p =>
    rw [adaptive] at h
    cases h
    exact clocks_times p
  | ramp r =>
    rw [adaptive] at h
    contradiction
  | concatenated xs ih =>
    rw [adaptive] at h
    obtain ⟨ys, hys, h⟩ := Outcome.bind_eq_ok_iff.mp h
    rw [adaptiveAll_eq, Outcome.mapM_eq_ok_iff] at hys
    obtain ⟨_, _, hparts⟩ := normal_concatenated.mp ht
    have htyped := Outcome.forall_mem_of_forall₂ (hys.imp fun x y hy => typed_adaptive hp hy)
    obtain ⟨_, _, rfl⟩ := (play_eq_ok_iff htyped).mp h
    exact clocks_join htyped (Outcome.forall₂_imp_of_mem hys
      fun x hm y hy => ih x hm (hparts x hm).normal hy)
  | repeated n body _ =>
    rw [adaptive] at h
    split at h
    . next hb =>
      obtain ⟨hn, _, _, _⟩ := normal_repeated.mp ht
      obtain ⟨idle, hidle, h⟩ := Outcome.bind_eq_ok_iff.mp h
      obtain ⟨_, rfl⟩ := Word.checked_eq_ok_iff.mp hidle
      obtain ⟨_, _, rfl⟩ := (play_eq_ok_iff (typed_pulse_level hp _)).mp h
      exact clocks_hold hp hb (by omega)
    . contradiction

end Windows

end Waveplan.Clock
