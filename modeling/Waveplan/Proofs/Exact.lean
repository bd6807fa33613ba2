import Mathlib.Algebra.Order.Floor.Semiring
import Mathlib.Data.Rat.Floor
import Mathlib.Tactic.FieldSimp
import Mathlib.Tactic.Linarith
import Mathlib.Tactic.Ring
import Waveplan.Proofs.Calibration
import Waveplan.Proofs.Instruction.Slice
import Waveplan.TimeStep

/-!
This module contains numbers without rounding, over which ramps and ticks keep the laws of
arithmetic: a part of a ramp plays the samples of the ramp, and later times have later ticks.
-/

namespace Waveplan

/--
Rational numbers, as the numbers of a shot. None of them is infinite.
-/
def Exact : Type := ℚ

namespace Exact

def roundTiesEven (x : ℚ) : Int :=
  if x - ⌊x⌋ < 1 / 2 then ⌊x⌋
  else if 1 / 2 < x - ⌊x⌋ then ⌊x⌋ + 1
  else if ⌊x⌋ % 2 = 0 then ⌊x⌋
  else ⌊x⌋ + 1

instance : Number Exact where
  add (x y : ℚ) := (x + y : ℚ)
  sub (x y : ℚ) := (x - y : ℚ)
  mul (x y : ℚ) := (x * y : ℚ)
  div (x y : ℚ) := (x / y : ℚ)
  neg (x : ℚ) := (-x : ℚ)
  beq (x y : ℚ) := decide (x = y)
  ofNat n := (n : ℚ)
  ofDecimal digits exponent := (digits * 10 ^ exponent : ℚ)
  infinity := (0 : ℚ)
  nan := (0 : ℚ)
  lt (x y : ℚ) := decide (x < y)
  le (x y : ℚ) := decide (x ≤ y)
  totalLe (x y : ℚ) := decide (x ≤ y)
  isFinite _ := true
  abs (x : ℚ) := (|x| : ℚ)
  ceilTick (x : ℚ) := ⌈x⌉₊
  roundTick (x : ℚ) := roundTiesEven x
  text (x : ℚ) := toString x

instance : DecidableEq Exact := inferInstanceAs (DecidableEq ℚ)

def toRat (x : Exact) : ℚ := x

theorem toRat_inj {x y : Exact} : x.toRat = y.toRat ↔ x = y := Iff.rfl

@[simp]
theorem toRat_add (x y : Exact) : (x + y).toRat = x.toRat + y.toRat := rfl

@[simp]
theorem toRat_sub (x y : Exact) : (x - y).toRat = x.toRat - y.toRat := rfl

@[simp]
theorem toRat_mul (x y : Exact) : (x * y).toRat = x.toRat * y.toRat := rfl

@[simp]
theorem toRat_div (x y : Exact) : (x / y).toRat = x.toRat / y.toRat := rfl

@[simp]
theorem toRat_ofNat (n : Nat) : (Number.ofNat n : Exact).toRat = n := rfl

theorem toRat_ofDecimal (digits : Nat) (exponent : Int) :
    (Number.ofDecimal digits exponent : Exact).toRat = digits * 10 ^ exponent := rfl

@[simp]
theorem toRat_zero : (Number.zero : Exact).toRat = 0 := Nat.cast_zero

theorem lt_iff {x y : Exact} : Number.lt x y ↔ x.toRat < y.toRat :=
  @decide_eq_true_iff (x.toRat < y.toRat) _

theorem le_iff {x y : Exact} : Number.le x y ↔ x.toRat ≤ y.toRat :=
  @decide_eq_true_iff (x.toRat ≤ y.toRat) _

theorem not_lt_iff {x y : Exact} : (!Number.lt x y) ↔ y.toRat ≤ x.toRat := by
  rw [Bool.not_eq_true', ← Bool.not_eq_true, lt_iff, not_lt]

theorem not_le_iff {x y : Exact} : (!Number.le x y) ↔ y.toRat < x.toRat := by
  rw [Bool.not_eq_true', ← Bool.not_eq_true, le_iff, not_le]

theorem totalLe_iff {x y : Exact} : Number.totalLe x y ↔ x.toRat ≤ y.toRat := le_iff

theorem beq_iff {x y : Exact} : x == y ↔ x = y :=
  @decide_eq_true_iff (x.toRat = y.toRat) _

theorem ceilTick_eq (x : Exact) : Number.ceilTick x = ⌈x.toRat⌉₊ := rfl

/--
Functions for formulas that call none, as far as their values are looked at.
-/
@[reducible]
def zeroFunctions : Analysis Exact where
  elementary _ _ := Number.zero
  ln _ := Number.zero
  log2 _ := Number.zero
  log10 _ := Number.zero
  remainder _ _ := Number.zero
  power _ _ := Number.zero
  e := Number.zero
  pi := Number.zero

end Exact

namespace Ramp

variable {r : Ramp Exact}

theorem toRat_valueAt (a b : Exact) (n i : Nat) :
    (valueAt a b n i).toRat = a.toRat + i * (b.toRat - a.toRat) / n := rfl

theorem valueAt_end (a b : Exact) {n : Nat} (h : 0 < n) : valueAt a b n n = b := by
  have : (n : ℚ) ≠ 0 := by positivity
  apply Exact.toRat_inj.mp
  rw [toRat_valueAt, mul_div_cancel_left₀ _ this, add_sub_cancel]

theorem valueAt_slice (a b : Exact) {n start stop : Nat} (i : Nat) (h : start < stop)
    (hs : stop ≤ n) :
    valueAt (valueAt a b n start) (valueAt a b n stop) (stop - start) i
      = valueAt a b n (start + i) := by
  have hn : (n : ℚ) ≠ 0 := by
    have : 0 < n := by omega
    positivity
  have hl : (stop : ℚ) - start ≠ 0 := by
    have : (start : ℚ) < stop := by exact_mod_cast h
    linarith
  apply Exact.toRat_inj.mp
  simp only [toRat_valueAt]
  rw [Nat.cast_sub (Nat.le_of_lt h), Nat.cast_add]
  field_simp
  ring

theorem valuesAt_length (hr : r.WellFormed) (h : 0 < r.length) :
    r.valuesAt r.length = r.stop := by
  apply List.ext_getElem
  . rw [valuesAt, List.length_zipWith, hr.start, hr.stop, Nat.min_self]
  . intro i h₁ h₂
    simp only [valuesAt, List.getElem_zipWith]
    exact valueAt_end _ _ h

theorem sample_slice (hr : r.WellFormed) {start stop : Nat} (i : Nat) (h : start < stop)
    (hs : stop ≤ r.length) : (r.slice start stop).sample i = r.sample (start + i) := by
  -- the end point that a slice keeps is the value that it would have computed
  have hstop : (r.slice start stop).stop = r.valuesAt stop := by
    simp only [slice]
    split
    . next he => rw [he, valuesAt_length hr (by omega)]
    . rfl
  have hv : (r.slice start stop).valuesAt i = r.valuesAt (start + i) := by
    rw [valuesAt, hstop]
    apply List.ext_getElem
    . simp [slice, valuesAt]
    . intro j h₁ h₂
      simp only [slice, valuesAt, List.getElem_zipWith]
      apply valueAt_slice <;> assumption
  rw [sample, hv, sample]

end Ramp

theorem Instruction.isDivisible_exact : IsDivisible fun _ : Ramp Exact => True where
  slice _ _ _ _ := trivial
  sample hr _ h hs _ := Ramp.sample_slice hr _ h hs

theorem Calibration.crossing_le (a b x : Exact) (n : Nat) : crossing a b n x ≤ n := by
  unfold crossing
  dsimp only
  rw [Exact.ceilTick_eq, Nat.ceil_le]
  split
  . rw [Exact.toRat_zero]
    apply Nat.cast_nonneg
  . split
    . rw [Exact.toRat_ofNat]
    . next h =>
      rw [Exact.lt_iff, Exact.toRat_ofNat] at h
      exact le_of_not_gt h

namespace TimeStep

variable (step : TimeStep)

theorem toRat_seconds :
    (step.seconds : Exact).toRat = step.ns.toNat * ((1 : Nat) * 10 ^ (-9 : Int)) := rfl

theorem toRat_seconds_pos : 0 < (step.seconds : Exact).toRat := by
  have := step.ns_pos
  rw [toRat_seconds]
  positivity

theorem tickAt_eq (time : Exact) :
    step.tickAt time = Word.nearest ⌈time.toRat / (step.seconds : Exact).toRat⌉₊ := rfl

/--
Times are compared by their ticks, below the last tick that a word can count.
-/
theorem tickAt_le_iff {time : Exact} {k : Nat} (hk : k + 1 < wordModulus) :
    step.tickAt time ≤ k ↔ time.toRat ≤ k * (step.seconds : Exact).toRat := by
  rw [tickAt_eq, Word.nearest_le_iff hk, Nat.ceil_le, div_le_iff₀ step.toRat_seconds_pos]

theorem toRat_of_timeOf {ε : Type} [HasOverflow ε] {k : Nat} {time : Exact}
    (h : (step.timeOf k : Except ε Exact) = .ok time) :
    time.toRat = k * (step.seconds : Exact).toRat := by
  obtain ⟨_, hns, h⟩ := Outcome.bind_eq_ok_iff.mp h
  obtain ⟨_, rfl⟩ := Word.checked_eq_ok_iff.mp hns
  cases h
  rw [Exact.toRat_mul, Exact.toRat_ofNat, Nat.cast_mul, mul_assoc]
  rfl

theorem tickAt_mono {s t : Exact} (h : s.toRat ≤ t.toRat) : step.tickAt s ≤ step.tickAt t := by
  apply Word.nearest_le_nearest
  apply Nat.ceil_mono
  apply div_le_div_of_nonneg_right h
  exact le_of_lt step.toRat_seconds_pos

theorem tickAt_zero : step.tickAt (Number.zero : Exact) = 0 := by
  rw [tickAt_eq, Exact.toRat_zero, zero_div, Nat.ceil_zero]
  rfl

def microsecond : TimeStep := ⟨1000, by decide⟩

end TimeStep

end Waveplan
