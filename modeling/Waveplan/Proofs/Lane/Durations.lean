import Waveplan.Formula.Kernel
import Waveplan.Proofs.Double.Ticks
import Waveplan.Proofs.Lane.Waveform

/-!
This module contains that the times of steps which were computed on double precision numbers are in
order exactly if no duration is a NaN, rounding errors and infinite durations notwithstanding, and
that then the ticks of the blocks of every lane add up to those of the shot.
-/

namespace Waveplan

/--
No step is shorter than zero, and the times at which steps begin and end do not decrease.
-/
structure StepTimes.InOrder (t : StepTimes Float) : Prop where
  duration_nonneg : ∀ d ∈ t.durations, Number.zero ≤ d
  bound_le : ∀ i j : Nat, i ≤ j → j ≤ t.size → t.bound i ≤ t.bound j

namespace StepTimes

variable {durations : List Float}

theorem inOrder_ofDurations (h : ∀ d ∈ durations, Number.zero ≤ d) (names : List String) :
    (ofDurations names durations).InOrder where
  duration_nonneg := h
  bound_le i j hij hj := by
    apply stepBoundsFrom_mono (p := fun x : Float => Number.zero ≤ x)
      (r := fun x y : Float => x ≤ y) ?_ ?_ ?_ ?_ _ hij hj
    . intro x hx
      exact Double.le_refl_iff.mpr (Double.le_iff.mp hx).2.1
    . exact fun _ _ _ => Double.le_trans
    . intro x hx d hd
      have hle := Double.le_add hx (h d hd)
      exact ⟨Double.le_trans hx hle, hle⟩
    . exact Double.le_refl_iff.mpr rfl

theorem InOrder.durations_ne_nan {t : StepTimes Float} (h : t.InOrder) :
    ∀ d ∈ t.durations, d.isNaN = false :=
  fun d hd => (Double.le_iff.mp (h.duration_nonneg d hd)).2.1

theorem InOrder.ticksInOrder {t : StepTimes Float} (h : t.InOrder)
    (hzero : t.bound 0 = Number.zero) (step : TimeStep) : t.TicksInOrder step := by
  intro i j hij hj
  apply Double.tickAt_mono step ?_ (h.bound_le i j hij hj)
  rw [← hzero]
  exact h.bound_le 0 i (Nat.zero_le i) (hij.trans hj)

variable {steps : List Step} {scope : Namespace Float} {t : StepTimes Float}

theorem inOrder_evaluate_iff [Kernel Float] (h : evaluate steps scope = .ok t) :
    (∀ d ∈ t.durations, ¬ d < Number.zero)
      ∧ (t.InOrder ↔ ∀ d ∈ t.durations, d.isNaN = false)
      ∧ (t.InOrder → ∀ (step : TimeStep) (β : Type) (blocks : List (Block β)),
        Block.totalSpan blocks = t.size →
          ((Block.ranges blocks).map fun range =>
              step.ticksBetween (t.bound range.1) (t.bound range.2)).sum
            = step.ticksBetween (t.bound 0) (t.bound t.size)) := by
  obtain ⟨ht, hlt⟩ := evaluate_eq_ok h
  have hnonneg : ∀ d ∈ t.durations, ¬ d < Number.zero :=
    fun d hd => of_decide_eq_false (hlt d hd)
  refine ⟨hnonneg, ⟨InOrder.durations_ne_nan, fun hnan => ?_⟩, ?_⟩
  . rw [ht]
    apply inOrder_ofDurations
    exact fun d hd => Double.le_of_not_lt (hnan d hd) rfl (hnonneg d hd)
  . intro hinOrder step β blocks hspan
    have hzero : t.bound 0 = Number.zero := by
      rw [ht]
      exact stepBoundsFrom_zero _ _ _
    exact sum_ticksBetween_ranges (hinOrder.ticksInOrder hzero step) hspan

/--
Steps with durations that are not exact, one of which is too long to count for the others.
-/
def roundedSteps : List Step :=
  [⟨"a", ⟨"0.1 s"⟩⟩, ⟨"b", ⟨"200 ms"⟩⟩, ⟨"c", ⟨"1e300 s"⟩⟩, ⟨"d", ⟨"1 ns"⟩⟩]

theorem inOrder_evaluate_roundedSteps : ∃ t : StepTimes Float,
    evaluate roundedSteps .empty = .ok t ∧ t.size = 4 ∧ t.InOrder := by
  have h := Outcome.eq_ok_of_isOk (x := evaluate roundedSteps (Dictionary.empty : Namespace Float))
    (by decide +kernel) (.ofDurations [] [])
  exact ⟨_, h, by decide +kernel, (inOrder_evaluate_iff h).2.1.mpr (by decide +kernel)⟩

/--
Steps the second one of which takes its part of a total time that is divided among no steps.
-/
def undefinedSteps : List Step := [⟨"a", ⟨"1 ms"⟩⟩, ⟨"b", ⟨"total / n"⟩⟩, ⟨"c", ⟨"1 ms"⟩⟩]

def undefinedScope : Namespace Float :=
  (Dictionary.empty.insert "total" (.quantity ⟨Number.zero, .second⟩)).insert "n"
    (.number Number.zero)

theorem not_inOrder_undefinedSteps : ∃ t : StepTimes Float,
    evaluate undefinedSteps undefinedScope = .ok t ∧ t.size = 3
      ∧ (∃ d ∈ t.durations, ¬ Number.zero ≤ d) ∧ ¬ t.bound 1 ≤ t.bound 2
      ∧ TimeStep.microsecond.ticksBetween (t.bound 0) (t.bound 1) = 1000
      ∧ TimeStep.microsecond.ticksBetween (t.bound 0) (t.bound 3) = 0 := by
  have h := Outcome.eq_ok_of_isOk (x := evaluate undefinedSteps undefinedScope)
    (by decide +kernel) (.ofDurations [] [])
  exact ⟨_, h, by decide +kernel, by decide +kernel, by decide +kernel, by decide +kernel,
    by decide +kernel⟩

end StepTimes

end Waveplan
