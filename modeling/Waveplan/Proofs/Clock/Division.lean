import Mathlib
import Waveplan.Proofs.Clock
import Waveplan.Proofs.Exact
import Waveplan.Proofs.Instruction.EndToEnd

/-!
This module contains how the ticks of a slave are divided into those of its master. There are
pulses exactly for the multiples, at least twofold, of the time step of the master, as long as twice
that time step is a machine word.
-/

namespace Waveplan.Clock

open Instruction

variable {α : Type} [Number α] {slave master : TimeStep}

omit [Number α] in
/--
Ticks are divided like natural numbers, unless the doubled time step of the master does not fit a
word.
-/
theorem highLowClicks_eq (slave master : TimeStep) :
    highLowClicks (α := α) slave master
      = if wordModulus ≤ 2 * master.ns.toNat then .error .overflow
        else if slave.ns.toNat < 2 * master.ns.toNat then .error (.clockTooFast slave master)
        else if ¬master.ns.toNat ∣ slave.ns.toNat then .error (.clockNotMultiple slave master)
        else .ok (slave.ns.toNat / master.ns.toNat, (slave.ns.toNat / master.ns.toNat) ⌈/⌉ 2,
          slave.ns.toNat / master.ns.toNat / 2) := by
  have hmod : slave.ns % master.ns ≠ 0 ↔ ¬master.ns.toNat ∣ slave.ns.toNat := by
    rw [ne_eq, ← UInt64.toNat_inj, UInt64.toNat_mod, Nat.dvd_iff_mod_eq_zero]
    rfl
  have hceil (n : Nat) : (n + 1) / 2 = n ⌈/⌉ 2 := (Nat.ceilDiv_eq_add_pred_div n 2).symm
  have hfloor (n : Nat) : n - n ⌈/⌉ 2 = n / 2 := by
    rw [← hceil]
    omega
  rw [highLowClicks, UInt64.toNat_div]
  simp only [hmod, hceil, hfloor]
  by_cases hw : wordModulus ≤ 2 * master.ns.toNat
  . rw [Word.checked_of_le hw, if_pos hw]
    rfl
  . rw [Word.checked_of_lt (Nat.lt_of_not_le hw), if_neg hw]
    rfl

theorem pulse_of_clicks {period high low : Nat}
    (h : highLowClicks (α := α) slave master = .ok (period, high, low)) :
    pulse slave master = .ok (join .bool [level true high, level false low] : Instruction α) := by
  obtain ⟨_, _, hs, rfl, rfl⟩ := highLowClicks_eq_ok_iff.mp h
  have hslave : slave.ns.toNat < wordModulus := slave.ns.toNat_lt
  have hle := Nat.le_mul_of_pos_right period master.ns_pos
  rw [pulse, h]
  refine (play_eq_ok_iff (typed_levels _ _)).mpr ⟨List.cons_ne_nil _ _, ?_, rfl⟩
  simp only [totalLength, length_level]
  omega

theorem pulse_of_error {error : CompilationError α}
    (h : highLowClicks slave master = .error error) : pulse slave master = .error error := by
  rw [pulse, h]
  rfl

theorem toPattern_levels (high low : Nat) :
    (join .bool [level true high, level false low] : Instruction α).toPattern
      = .ofBools (List.replicate high true ++ List.replicate low false) := by
  have hconcat := Pattern.concat_ofBools (α := α)
    [List.replicate high true, List.replicate low false]
  rw [toPattern_join (typed_levels high low), List.map_cons, List.map_singleton, toPattern_level,
    toPattern_level]
  rwa [List.flatten_cons, List.flatten_singleton] at hconcat

/--
That the ticks of the slave are divided into those of the master. There are pulses exactly for the
multiples, at least twofold, of the time step of the master. A pulse is high for the first half of a
tick of the slave, rounded up, and low for the rest.
-/
structure DividesTicks (α : Type) [Number α] (slave master : TimeStep) : Prop where
  exists_pulse_iff : (∃ y : Instruction α, pulse slave master = .ok y)
    ↔ ∃ k, 2 ≤ k ∧ slave.ns.toNat = k * master.ns.toNat
  clicks (k : Nat) : 2 ≤ k → slave.ns.toNat = k * master.ns.toNat →
    highLowClicks (α := α) slave master = .ok (k, k ⌈/⌉ 2, k / 2)
  written (k : Nat) : 2 ≤ k → slave.ns.toNat = k * master.ns.toNat →
    1 ≤ k / 2 ∧ ∃ y : Instruction α, pulse slave master = .ok y
      ∧ y.toPattern = .ofBools (List.replicate (k ⌈/⌉ 2) true ++ List.replicate (k / 2) false)
  tooFast : slave.ns.toNat < 2 * master.ns.toNat →
    pulse (α := α) slave master = .error (.clockTooFast slave master)
  notMultiple : 2 * master.ns.toNat ≤ slave.ns.toNat →
    (∀ k, 2 ≤ k → slave.ns.toNat ≠ k * master.ns.toNat) →
    pulse (α := α) slave master = .error (.clockNotMultiple slave master)

/--
Ticks are divided wherever the double of the master's time step fits a word.
-/
theorem dividesTicks_of_lt (h : 2 * master.ns.toNat < wordModulus) :
    DividesTicks α slave master := by
  have hclicks (k : Nat) (h₂ : 2 ≤ k) (hk : slave.ns.toNat = k * master.ns.toNat) :
      highLowClicks (α := α) slave master = .ok (k, k ⌈/⌉ 2, k / 2) := by
    have hle := Nat.mul_le_mul_right master.ns.toNat h₂
    have hdvd : master.ns.toNat ∣ slave.ns.toNat := Dvd.intro_left k hk.symm
    rw [highLowClicks_eq, if_neg (by omega), if_neg (by omega), if_neg (not_not.mpr hdvd), hk,
      Nat.mul_div_cancel k master.ns_pos]
  have htooFast (hlt : slave.ns.toNat < 2 * master.ns.toNat) :
      pulse (α := α) slave master = .error (.clockTooFast slave master) := by
    apply pulse_of_error
    rw [highLowClicks_eq, if_neg (by omega), if_pos hlt]
  have hnotMultiple (hle : 2 * master.ns.toNat ≤ slave.ns.toNat)
      (hk : ∀ k, 2 ≤ k → slave.ns.toNat ≠ k * master.ns.toNat) :
      pulse (α := α) slave master = .error (.clockNotMultiple slave master) := by
    apply pulse_of_error
    have hdvd : ¬master.ns.toNat ∣ slave.ns.toNat := by
      intro hdvd
      obtain ⟨k, hdvd⟩ := exists_eq_mul_left_of_dvd hdvd
      rw [hdvd] at hle
      exact hk k (Nat.le_of_mul_le_mul_right hle master.ns_pos) hdvd
    rw [highLowClicks_eq, if_neg (by omega), if_neg (by omega), if_pos hdvd]
  refine ⟨⟨?_, ?_⟩, hclicks, ?_, htooFast, hnotMultiple⟩
  . rintro ⟨y, hy⟩
    by_contra hnone
    rcases Nat.lt_or_ge slave.ns.toNat (2 * master.ns.toNat) with hlt | hle
    . rw [htooFast hlt] at hy
      contradiction
    . rw [hnotMultiple hle fun k h₂ hk => hnone ⟨k, h₂, hk⟩] at hy
      contradiction
  . rintro ⟨k, h₂, hk⟩
    exact ⟨_, pulse_of_clicks (hclicks k h₂ hk)⟩
  . intro k h₂ hk
    exact ⟨by omega, _, pulse_of_clicks (hclicks k h₂ hk), toPattern_levels _ _⟩

theorem pulse_of_overflow (h : wordModulus ≤ 2 * master.ns.toNat) :
    pulse (α := α) slave master = .error .overflow := by
  apply pulse_of_error
  rw [highLowClicks_eq, if_pos h]

/--
The ticks of the slave are divided into those of the master if the double of the master's time step
is a machine word. Otherwise every slave is too fast, but doubling overflows before that is seen.
-/
theorem dividesTicks_iff (slave master : TimeStep) :
    (DividesTicks α slave master ↔ 2 * master.ns.toNat < wordModulus)
      ∧ (wordModulus ≤ 2 * master.ns.toNat → slave.ns.toNat < 2 * master.ns.toNat
        ∧ pulse (α := α) slave master = .error .overflow) := by
  have hfast (hw : wordModulus ≤ 2 * master.ns.toNat) :
      slave.ns.toNat < 2 * master.ns.toNat := Nat.lt_of_lt_of_le slave.ns.toNat_lt hw
  refine ⟨⟨fun h => ?_, dividesTicks_of_lt⟩, fun hw => ⟨hfast hw, pulse_of_overflow hw⟩⟩
  by_contra hw
  have htooFast := h.tooFast (hfast (Nat.le_of_not_lt hw))
  rw [pulse_of_overflow (Nat.le_of_not_lt hw)] at htooFast
  cases htooFast

section Steps

def threeMicroseconds : TimeStep := ⟨3000, by decide⟩

def longestStep : TimeStep := ⟨0xFFFFFFFFFFFFFFFF, by decide⟩

theorem dividesTicks_threeMicroseconds :
    (∃ y : Instruction Float, pulse threeMicroseconds .microsecond = .ok y
        ∧ y.toPattern = .ofBools [true, true, false])
      ∧ wordModulus ≤ 2 * longestStep.ns.toNat
      ∧ pulse (α := Float) threeMicroseconds longestStep = .error .overflow := by
  obtain ⟨hiff, _⟩ := dividesTicks_iff (α := Float) threeMicroseconds .microsecond
  obtain ⟨_, hoverflow⟩ := dividesTicks_iff (α := Float) threeMicroseconds longestStep
  have hwritten := ((hiff.mpr (by decide)).written 3 (by decide) (by decide)).2
  have hw : wordModulus ≤ 2 * longestStep.ns.toNat := by decide
  exact ⟨hwritten, hw, (hoverflow hw).2⟩

/--
A slave that is as fast as its master is not recognized as too fast: doubling the time step of the
master overflows, and the double modulo the words is not above the time step of the slave.
-/
theorem not_dividesTicks_longestStep :
    longestStep.ns.toNat < 2 * longestStep.ns.toNat
      ∧ highLowClicks (α := Float) longestStep longestStep = .error .overflow
      ∧ 2 * longestStep.ns.toNat % wordModulus ≤ longestStep.ns.toNat
      ∧ ¬DividesTicks Float longestStep longestStep := by
  have hlt : longestStep.ns.toNat < 2 * longestStep.ns.toNat := by decide
  refine ⟨hlt, rfl, by decide, fun h => ?_⟩
  have htooFast := h.tooFast hlt
  rw [pulse_of_overflow (by decide)] at htooFast
  cases htooFast

end Steps

end Waveplan.Clock
