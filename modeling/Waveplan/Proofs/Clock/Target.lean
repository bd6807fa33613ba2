import Waveplan.Proofs.Clock
import Waveplan.Proofs.Instruction.Cut

/-!
This module contains which instructions can be targets of clocks. This is seen from their trees: a
value that is held is a repetition of a single tick, and only there a ramp does no harm.
-/

namespace Waveplan

variable {α : Type}

namespace Instruction

theorem two_le_length_concatenated {xs : List (Instruction α)} (h : (concatenated xs).Normal) :
    2 ≤ totalLength xs := by
  obtain ⟨hl, _, hparts⟩ := normal_concatenated.mp h
  match xs, hl with
  | x :: y :: rest, _ =>
    have hx := (hparts x (by simp)).length_pos
    have hy := (hparts y (by simp)).length_pos
    rw [totalLength, totalLength]
    omega

/--
A single tick in normal form is a leaf, unless it is a repetition.
-/
theorem eq_of_isNode_of_length {x y : Instruction α} (hx : x.Normal) (hl : x.length = 1)
    (hne : ∀ m z, x ≠ .repeated m z) (h : IsNode y x) : y = x := by
  cases h with
  | self => rfl
  | part _ _ =>
    have := two_le_length_concatenated hx
    rw [length_concatenated] at hl
    omega
  | body n _ => exact absurd rfl (hne n _)

end Instruction

namespace Clock

open Instruction

/--
That an instruction repeats nothing but single ticks, and that each of its ramps is repeated.
-/
structure IsClockable (target : Instruction α) : Prop where
  single_tick : ∀ n body, IsNode (.repeated n body) target → body.length = 1
  /-- A ramp is not the whole instruction, nor a part of a concatenation in it. -/
  ne_ramp : ∀ r, target ≠ .ramp r
  ramp_not_mem : ∀ xs, IsNode (.concatenated xs) target → ∀ r, .ramp r ∉ xs

theorem isClockable_pattern (p : Pattern α) : IsClockable (.pattern p) where
  single_tick n body h := by
    rw [isNode_pattern] at h
    contradiction
  ne_ramp r := by simp
  ramp_not_mem xs h := by
    rw [isNode_pattern] at h
    contradiction

theorem not_isClockable_ramp (r : Ramp α) : ¬IsClockable (.ramp r) := fun h => h.ne_ramp r rfl

theorem isClockable_concatenated_iff {xs : List (Instruction α)} :
    IsClockable (.concatenated xs) ↔ ∀ x ∈ xs, IsClockable x := by
  constructor
  . intro h x hx
    refine ⟨fun n body hb => h.single_tick n body (.part hx hb), ?_,
      fun ys hy => h.ramp_not_mem ys (.part hx hy)⟩
    rintro r rfl
    exact h.ramp_not_mem xs .self r hx
  . intro h
    refine ⟨fun n body hb => ?_, by simp, fun ys hy r hr => ?_⟩
    . obtain ⟨x, hx, hb⟩ := (isNode_concatenated.mp hb).resolve_left (by simp)
      exact (h x hx).single_tick n body hb
    . rcases isNode_concatenated.mp hy with he | ⟨x, hx, hy⟩
      . cases he
        exact (h _ hr).ne_ramp r rfl
      . exact (h x hx).ramp_not_mem ys hy r hr

theorem isClockable_repeated_iff {n : Nat} {body : Instruction α} (h : (repeated n body).Normal) :
    IsClockable (.repeated n body) ↔ body.length = 1 := by
  refine ⟨fun h => h.single_tick n body .self, fun hl => ?_⟩
  obtain ⟨_, _, hne, hbody⟩ := normal_repeated.mp h
  have hleaf (y : Instruction α) := eq_of_isNode_of_length (y := y) hbody hl hne
  refine ⟨fun m x hx => ?_, by simp, fun xs hxs => ?_⟩
  . rcases isNode_repeated.mp hx with he | hx
    . cases he
      exact hl
    . exact absurd (hleaf _ hx).symm (hne m x)
  . have hxs := hleaf _ ((isNode_repeated.mp hxs).resolve_left (by simp))
    subst hxs
    have := two_le_length_concatenated hbody
    rw [length_concatenated] at hl
    omega

variable [Number α] {pulse target : Instruction α}

/--
What the clock of a target in normal form fails with, other than that it is too long, is seen from
the tree of the target alone.
-/
theorem isClockable_of_adaptive (ht : target.Normal) {y : Instruction α}
    (h : adaptive pulse target = .ok y) : IsClockable target := by
  induction target generalizing y with
  | pattern p => exact isClockable_pattern p
  | ramp r =>
    rw [adaptive] at h
    contradiction
  | concatenated xs ih =>
    obtain ⟨_, _, hparts⟩ := normal_concatenated.mp ht
    rw [adaptive] at h
    obtain ⟨ys, hys, _⟩ := Outcome.bind_eq_ok_iff.mp h
    rw [adaptiveAll_eq] at hys
    refine isClockable_concatenated_iff.mpr fun x hx => ?_
    obtain ⟨z, _, hz⟩ := Outcome.exists_mem_of_mapM_eq_ok hys hx
    exact ih x hx (hparts x hx).normal hz
  | repeated n body _ =>
    rw [adaptive] at h
    split at h
    . next hl => exact (isClockable_repeated_iff ht).mpr hl
    . contradiction

/--
That a computation gives a clock, unless the ticks of the clock are too many for a machine word.
-/
def ClocksOrOverflows (pulse target : Instruction α)
    (clock : Except (CompilationError α) (Instruction α)) : Prop :=
  (∃ y, clock = .ok y) ∨ (wordModulus ≤ target.length * pulse.length
    ∧ Outcome.FailsWith (CompilationError.isOverflow · = true) clock)

theorem clocksOrOverflows_play {xs : List (Instruction α)} (hne : xs ≠ [])
    (hxs : ∀ x ∈ xs, x.Typed .bool) (hl : totalLength xs = target.length * pulse.length) :
    ClocksOrOverflows pulse target (play xs) := by
  by_cases hfit : totalLength xs < wordModulus
  . exact .inl ⟨_, (play_eq_ok_iff hxs).mpr ⟨hne, hfit, rfl⟩⟩
  . have hle := Nat.le_of_not_lt hfit
    exact .inr ⟨hl ▸ hle, _, play_of_le hne hxs hle, rfl⟩

theorem clocksOrOverflows_adaptive (hp : pulse.Typed .bool) (ht : target.Normal)
    (h : IsClockable target) : ClocksOrOverflows pulse target (adaptive pulse target) := by
  induction target with
  | pattern p => exact .inl ⟨_, rfl⟩
  | ramp r => exact absurd h (not_isClockable_ramp r)
  | concatenated xs ih =>
    obtain ⟨_, _, hparts⟩ := normal_concatenated.mp ht
    rw [adaptive, adaptiveAll_eq]
    cases hys : xs.mapM (adaptive pulse) with
    | error e =>
      -- a part that overflows is not longer than the whole
      obtain ⟨before, x, after, rfl, _, hx⟩ := Outcome.mapM_eq_error_iff.mp hys
      have hm : x ∈ before ++ x :: after := by simp
      have hclock := ih x hm (hparts x hm).normal (isClockable_concatenated_iff.mp h x hm)
      rw [hx] at hclock
      obtain ⟨hl, he⟩ := hclock.resolve_left (by simp)
      refine .inr ⟨Nat.le_trans hl (Nat.mul_le_mul_right _ ?_), he⟩
      rw [length_concatenated]
      exact length_le_totalLength hm
    | ok ys =>
      have hall := Outcome.mapM_eq_ok_iff.mp hys
      have hclocks := Outcome.forall₂_imp_of_mem hall fun x hm y hy =>
        clocks_adaptive hp (hparts x hm).normal hy
      exact clocksOrOverflows_play (ne_nil_of_forall₂ ht hall)
        (Outcome.forall_mem_of_forall₂ (hall.imp fun x y hy => typed_adaptive hp hy))
        (totalLength_mul_of_forall₂ (hclocks.imp fun _ _ h => h.length))
  | repeated n body _ =>
    obtain ⟨hn, _, _, _⟩ := normal_repeated.mp ht
    have hl : body.length = 1 := (isClockable_repeated_iff ht).mp h
    have hlength : (repeated n body).length * pulse.length
        = pulse.length + (n - 1) * pulse.length := by
      obtain ⟨m, rfl⟩ : ∃ m, n = m + 1 := ⟨n - 1, by omega⟩
      rw [length_repeated, hl, Nat.mul_one, Nat.add_sub_cancel, Nat.succ_mul, Nat.add_comm]
    rw [adaptive, if_pos hl]
    by_cases hidle : (n - 1) * pulse.length < wordModulus
    . rw [Word.checked_of_lt hidle]
      apply clocksOrOverflows_play (List.cons_ne_nil _ _) (typed_pulse_level hp _)
      rw [hlength]
      simp [totalLength]
    . rw [Word.checked_of_le (Nat.le_of_not_lt hidle)]
      exact .inr ⟨by omega, _, rfl, rfl⟩

/--
That a clock plays a pulse during the tick `k` of its target.
-/
def PulsesAt (pulse clock : Instruction α) (k : Nat) : Prop :=
  ∀ i < pulse.length, clock.sampleAt (k * pulse.length + i) = pulse.sampleAt i

/--
That a clock stays low during the tick `k` of its target.
-/
def IsLowAt (pulse clock : Instruction α) (k : Nat) : Prop :=
  ∀ i < pulse.length, clock.sampleAt (k * pulse.length + i) = ⟨[.bool false]⟩

/--
A clock that has a pulse wherever its target begins or changes, and is low where it has none.
-/
structure MarksChanges (pulse target clock : Instruction α) : Prop where
  typed : clock.Typed .bool
  length : clock.length = target.length * pulse.length
  window : ∀ k < target.length, PulsesAt pulse clock k ∨ IsLowAt pulse clock k
  change : ∀ k < target.length, k = 0 ∨ target.sampleAt k ≠ target.sampleAt (k - 1) →
    PulsesAt pulse clock k

theorem Clocks.marksChanges {clock : Instruction α} (h : Clocks pulse target clock)
    (ht : clock.Typed .bool) : MarksChanges pulse target clock where
  typed := ht
  length := h.length
  window k hk := (h.window k hk).imp_right And.right
  change k hk hchange := by
    rcases h.window k hk with hpulse | ⟨⟨hne, hheld⟩, _⟩
    . exact hpulse
    . exact absurd hheld (hchange.resolve_left hne)

/--
There is a clock exactly for the targets that hold their values by repetitions of single ticks, as
long as its ticks are counted in a machine word, and it marks all changes of its target. Where only
the ticks are too many, following the target overflows.
-/
theorem marksChanges_follow (hp : pulse.Typed .bool) (ht : target.Normal) :
    ((∃ y, follow pulse target = .ok y)
        ↔ IsClockable target ∧ target.length * pulse.length < wordModulus)
      ∧ (IsClockable target → wordModulus ≤ target.length * pulse.length →
        Outcome.FailsWith (CompilationError.isOverflow · = true) (follow pulse target))
      ∧ ∀ y, follow pulse target = .ok y → MarksChanges pulse target y := by
  refine ⟨⟨?_, ?_⟩, ?_, ?_⟩
  . rintro ⟨y, hy⟩
    obtain ⟨hadaptive, hl⟩ := (follow_eq_ok_iff hp).mp hy
    rw [(clocks_adaptive hp ht hadaptive).length] at hl
    exact ⟨isClockable_of_adaptive ht hadaptive, hl⟩
  . rintro ⟨hclockable, hl⟩
    obtain ⟨y, hy⟩ := (clocksOrOverflows_adaptive hp ht hclockable).resolve_right
      fun h => Nat.not_lt_of_le h.1 hl
    exact ⟨y, (follow_eq_ok_iff hp).mpr ⟨hy, by rwa [(clocks_adaptive hp ht hy).length]⟩⟩
  . intro hclockable hl
    rcases clocksOrOverflows_adaptive hp ht hclockable with ⟨y, hy⟩ | ⟨_, e, he, hover⟩
    . rw [follow, hy]
      refine ⟨.instruction .overflow, ?_, rfl⟩
      rw [← (clocks_adaptive hp ht hy).length] at hl
      change y.fit.mapError _ = _
      rw [fit_of_le (typed_adaptive hp hy).normal hl]
      rfl
    . exact ⟨e, by rw [follow, he]; rfl, hover⟩
  . intro y hy
    have hadaptive := ((follow_eq_ok_iff hp).mp hy).1
    exact (clocks_adaptive hp ht hadaptive).marksChanges (typed_adaptive hp hadaptive)

/--
Two values, and a third one that is held for three ticks. Its ramp is as long as what is repeated.
-/
def heldRamp : Instruction Exact :=
  .concatenated [.pattern (.ofFloats [Number.ofNat 1, Number.ofNat 2]),
    .repeated 3 (.ramp ⟨.float, [Number.ofNat 3], [Number.ofNat 7], 1⟩)]

theorem normal_heldRamp : heldRamp.Normal := by
  have hr : (.ramp ⟨.float, [Number.ofNat 3], [Number.ofNat 7], 1⟩ : Instruction Exact).Normal :=
    normal_ramp.mpr ⟨⟨rfl, rfl, rfl⟩, by decide⟩
  have hh := normal_repeated.mpr ⟨(by decide : 2 ≤ 3), by decide, by simp, hr⟩
  exact normal_concatenated_pair (t := .float)
    ⟨normal_pattern.mpr (Pattern.wellFormed_ofFloats _), by decide, rfl, by simp⟩
    ⟨hh, by decide, rfl, by simp⟩ (by simp [isPattern])

theorem isClockable_heldRamp : IsClockable heldRamp := by
  have hparts := (normal_concatenated.mp normal_heldRamp).2.2
  refine isClockable_concatenated_iff.mpr fun x hx => ?_
  have hnormal := (hparts x hx).normal
  rcases List.mem_pair.mp hx with rfl | rfl
  . exact isClockable_pattern _
  . exact (isClockable_repeated_iff hnormal).mpr rfl

/--
The change to the held value is marked, there is no clock for a longer ramp, and none for a value
that is held for too many ticks.
-/
theorem marksChanges_follow_heldRamp :
    (∃ y, follow (.pattern (.ofBools [true, false])) heldRamp = .ok y ∧ y.length = 10
        ∧ y.sampleAt 4 = ⟨[.bool true]⟩)
      ∧ (¬∃ y, follow (.pattern (.ofBools [true, false])) (countUp "voltage" 2) = .ok y)
      ∧ Outcome.FailsWith (CompilationError.isOverflow · = true)
        (follow (.pattern (.ofBools [true, false])) (level true (2 ^ 63) : Instruction Exact)) := by
  have hp : (.pattern (.ofBools [true, false]) : Instruction Exact).Typed .bool :=
    typed_pattern (Pattern.wellFormed_ofBools _)
  obtain ⟨hiff, _, hmarks⟩ := marksChanges_follow hp normal_heldRamp
  obtain ⟨y, hy⟩ := hiff.mpr ⟨isClockable_heldRamp, by decide⟩
  have h := hmarks y hy
  have hv : Ramp.valueAt (Number.ofNat 3) (Number.ofNat 7) 1 0 ≠ (Number.ofNat 2 : Exact) := by
    decide +kernel
  have hchange : heldRamp.sampleAt 2 ≠ heldRamp.sampleAt 1 := fun h =>
    hv (Scalar.float.inj (List.head_eq_of_cons_eq (Sample.mk.inj h)))
  have hlevel := (typed_level true (2 ^ 63) : (level _ _ : Instruction Exact).Typed .bool).normal
  refine ⟨⟨y, hy, h.length, h.change 2 (by decide) (.inr hchange) 0 (by decide)⟩, ?_, ?_⟩
  . rw [(marksChanges_follow hp (normal_countUp "voltage" (by decide))).1]
    exact fun h => not_isClockable_ramp _ h.1
  . exact (marksChanges_follow hp hlevel).2.1 ((isClockable_repeated_iff hlevel).mpr rfl)
      (by rw [length_level]; decide)

/--
A level that is held for half of the ticks that a machine word can count has a clock by its tree,
and following it overflows.
-/
theorem not_follow_heldLevel :
    IsClockable (level true (2 ^ 63) : Instruction Exact)
      ∧ follow (.pattern (.ofBools [true, false])) (level true (2 ^ 63) : Instruction Exact)
        = .error (.instruction .overflow) := by
  have hp : (.pattern (.ofBools [true, false]) : Instruction Exact).Typed .bool :=
    typed_pattern (Pattern.wellFormed_ofBools _)
  have hlevel : (level true (2 ^ 63) : Instruction Exact)
      = repeated (2 ^ 63) (pattern (.ofBools [true])) := rfl
  have hplay : play [pattern (.ofBools [true, false]), level false ((2 ^ 63 - 1) * 2)]
      = .error (.instruction .overflow : CompilationError Exact) :=
    play_of_le (List.cons_ne_nil _ _) (typed_pulse_level hp _) (by decide)
  have hsingle : (pattern (.ofBools [true]) : Instruction Exact).length = 1 := rfl
  refine ⟨?_, ?_⟩
  . rw [hlevel]
    exact (isClockable_repeated_iff (hlevel ▸ (typed_level true (2 ^ 63)).normal)).mpr rfl
  . rw [follow, hlevel, adaptive, if_pos hsingle, Word.checked_of_lt (by decide)]
    exact congrArg (· >>= _) hplay

end Clock

end Waveplan
