import Waveplan.Lane.Steps
import Waveplan.Proofs.Exact

/-!
This module contains that the times of the steps of a shot are in order if no step has a negative
duration, and so are their ticks.
-/

namespace Waveplan

theorem length_stepBoundsFrom {α : Type} [Number α] (elapsed : α) (durations : List α) :
    (stepBoundsFrom elapsed durations).length = durations.length + 1 := by
  induction durations generalizing elapsed with
  | nil => rfl
  | cons d durations ih => rw [stepBoundsFrom, List.length_cons, ih, List.length_cons]

theorem stepBoundsFrom_zero {α : Type} [Number α] (elapsed default : α) (durations : List α) :
    (stepBoundsFrom elapsed durations).getD 0 default = elapsed := by
  cases durations <;> rfl

theorem StepTimes.bound_zero_ofDurations {α : Type} [Number α] (names : List String)
    (durations : List α) : (ofDurations names durations).bound 0 = Number.zero :=
  stepBoundsFrom_zero _ _ _

theorem StepTimes.bound_size_ofDurations {α : Type} [Number α] (names : List String)
    (durations : List α) :
    (ofDurations names durations).bound durations.length
      = (ofDurations names durations).duration := by
  have hl := length_stepBoundsFrom (Number.zero : α) durations
  rw [bound, duration, ofDurations, stepBounds, List.getLastD_eq_getLast?,
    List.getLast?_eq_getElem?, hl, List.getD_eq_getElem?_getD]
  rfl

section Accumulation

variable {α : Type} [Number α] {p : α → Prop} {r : α → α → Prop} {durations : List α}

/--
What holds of the running sum of durations and between it and the next one holds of the first and
any later one.
-/
theorem le_stepBoundsFrom (hrefl : ∀ x, p x → r x x) (htrans : ∀ x y z, r x y → r y z → r x z)
    (hadd : ∀ x, p x → ∀ d ∈ durations, p (x + d) ∧ r x (x + d)) {elapsed : α} (hp : p elapsed)
    (default : α) {i : Nat} (hi : i ≤ durations.length) :
    r elapsed ((stepBoundsFrom elapsed durations).getD i default) := by
  induction durations generalizing elapsed i with
  | nil =>
    have hi := Nat.le_zero.mp hi
    subst hi
    exact hrefl _ hp
  | cons d durations ih =>
    cases i with
    | zero => exact hrefl _ hp
    | succ i =>
      obtain ⟨hp', hle⟩ := hadd elapsed hp d List.mem_cons_self
      rw [stepBoundsFrom, List.getD_cons_succ]
      apply htrans _ _ _ hle
      exact ih (fun x hx d hd => hadd x hx d (List.mem_cons_of_mem _ hd)) hp'
        (Nat.le_of_succ_le_succ hi)

theorem stepBoundsFrom_mono (hrefl : ∀ x, p x → r x x) (htrans : ∀ x y z, r x y → r y z → r x z)
    (hadd : ∀ x, p x → ∀ d ∈ durations, p (x + d) ∧ r x (x + d)) {elapsed : α} (hp : p elapsed)
    (default : α) {i j : Nat} (hij : i ≤ j) (hj : j ≤ durations.length) :
    r ((stepBoundsFrom elapsed durations).getD i default)
      ((stepBoundsFrom elapsed durations).getD j default) := by
  induction durations generalizing elapsed i j with
  | nil =>
    have hj := Nat.le_zero.mp hj
    subst hj
    rw [Nat.le_zero.mp hij]
    exact hrefl _ hp
  | cons d durations ih =>
    cases i with
    | zero =>
      rw [stepBoundsFrom_zero]
      exact le_stepBoundsFrom hrefl htrans hadd hp _ hj
    | succ i =>
      cases j with
      | zero => omega
      | succ j =>
        rw [stepBoundsFrom, List.getD_cons_succ, List.getD_cons_succ]
        apply ih
        . exact fun x hx d hd => hadd x hx d (List.mem_cons_of_mem _ hd)
        . exact (hadd elapsed hp d List.mem_cons_self).1
        . exact Nat.le_of_succ_le_succ hij
        . exact Nat.le_of_succ_le_succ hj

end Accumulation

theorem StepTimes.evaluate_eq_ok {α : Type} [Number α] [Kernel α] {steps : List Step} {scope : Namespace α}
    {t : StepTimes α} (h : evaluate steps scope = .ok t) :
    t = .ofDurations (steps.map Step.name) t.durations
      ∧ ∀ d ∈ t.durations, Number.lt d Number.zero = false := by
  obtain ⟨durations, hd, h⟩ := Outcome.bind_eq_ok_iff.mp h
  cases h
  refine ⟨rfl, ?_⟩
  apply Outcome.forall_mem_of_forall₂
  apply Outcome.forall₂_imp_of_mem (Outcome.mapM_eq_ok_iff.mp hd)
  intro step _ d hstep
  unfold Step.seconds at hstep
  split at hstep
  . cases hstep
  . dsimp only at hstep
    split at hstep
    . cases hstep
    . next hlt =>
      cases hstep
      exact Bool.eq_false_iff.mpr hlt

/--
The times at which steps begin and end do not decrease.
-/
structure StepTimes.Ordered (t : StepTimes Exact) : Prop where
  bound_zero : t.bound 0 = Number.zero
  bound_size : t.bound t.size = t.duration
  bound_mono {i j : Nat} : i ≤ j → j ≤ t.size → (t.bound i).toRat ≤ (t.bound j).toRat

/--
The ticks at which steps begin and end do not decrease.
-/
def StepTimes.TicksInOrder {α : Type} [Number α] (t : StepTimes α) (step : TimeStep) : Prop :=
  ∀ i j : Nat, i ≤ j → j ≤ t.size → step.tickAt (t.bound i) ≤ step.tickAt (t.bound j)

theorem StepTimes.Ordered.ticksInOrder {t : StepTimes Exact} (h : t.Ordered) (step : TimeStep) :
    t.TicksInOrder step :=
  fun _ _ hij hj => step.tickAt_mono (h.bound_mono hij hj)

variable {durations : List Exact}

theorem toRat_getD_stepBoundsFrom (elapsed default : Exact) {i : Nat} (hi : i ≤ durations.length) :
    ((stepBoundsFrom elapsed durations).getD i default).toRat
      = elapsed.toRat + ((durations.take i).map Exact.toRat).sum := by
  induction durations generalizing elapsed i with
  | nil =>
    rw [Nat.le_zero.mp hi]
    simp [stepBoundsFrom]
  | cons d durations ih =>
    cases i with
    | zero => simp [stepBoundsFrom]
    | succ i =>
      rw [stepBoundsFrom, List.getD_cons_succ, ih _ (Nat.le_of_succ_le_succ hi), Exact.toRat_add,
        List.take_succ_cons, List.map_cons, List.sum_cons, add_assoc]

theorem StepTimes.toRat_bound {names : List String} {i : Nat} (hi : i ≤ durations.length) :
    ((StepTimes.ofDurations names durations).bound i).toRat
      = ((durations.take i).map Exact.toRat).sum := by
  rw [bound, ofDurations, stepBounds, toRat_getD_stepBoundsFrom _ _ hi, Exact.toRat_zero, zero_add]

theorem StepTimes.ordered_ofDurations (h : ∀ d ∈ durations, 0 ≤ d.toRat) (names : List String) :
    (StepTimes.ofDurations names durations).Ordered where
  bound_zero := bound_zero_ofDurations names durations
  bound_size := bound_size_ofDurations names durations
  bound_mono hij hj := by
    apply stepBoundsFrom_mono (p := fun _ => True) (r := fun x y : Exact => x.toRat ≤ y.toRat)
      (fun _ _ => le_refl _) (fun _ _ _ => le_trans) ?_ trivial _ hij hj
    intro x _ d hd
    have := h d hd
    rw [Exact.toRat_add]
    exact ⟨trivial, by linarith⟩

theorem StepTimes.ordered_of_evaluate [Kernel Exact] {steps : List Step}
    {scope : Namespace Exact} {t : StepTimes Exact} (h : evaluate steps scope = .ok t) :
    t.Ordered := by
  obtain ⟨ht, hd⟩ := evaluate_eq_ok h
  rw [ht]
  apply ordered_ofDurations
  intro d hmem
  have := Bool.eq_false_iff.mp (hd d hmem)
  rw [ne_eq, Exact.lt_iff, Exact.toRat_zero] at this
  exact le_of_not_gt this

end Waveplan
