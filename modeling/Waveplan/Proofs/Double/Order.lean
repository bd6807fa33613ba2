import Mathlib

/-!
This module contains the order of double precision numbers: every number but a NaN has a rank, and
the comparisons of numbers are those of their ranks.
-/

namespace Waveplan.Double

open Float.Model (UnpackedFloat)
open Float.Model.UnpackedFloat (Sign)

/--
The place of a number in the order of all numbers: first come the classes from minus infinity to
infinity, and among finite numbers of one sign the exponent counts before the mantissa.
-/
def rank : UnpackedFloat → ℤ ×ₗ ℤ ×ₗ ℤ
  | .infinity .negative => toLex (-2, toLex (0, 0))
  | .finite .negative m e _ => toLex (-1, toLex (-e, -m))
  | .zero _ | .notANumber => toLex (0, toLex (0, 0))
  | .finite .positive m e _ => toLex (1, toLex (e, m))
  | .infinity .positive => toLex (2, toLex (0, 0))

section Unpacked

variable {a b : UnpackedFloat}

theorem compare_neg_neg (m n : Int) : compare (-m) (-n) = (compare m n).swap := by
  rw [Int.compare_swap]
  simp only [compare, compareOfLessAndEq, Int.neg_lt_neg_iff, Int.neg_inj, eq_comm]

theorem compare_natCast (m n : Nat) : compare (m : Int) (n : Int) = compare m n := by
  simp only [compare, compareOfLessAndEq, Int.ofNat_lt, Int.natCast_inj]

theorem unpacked_compare_eq (ha : a.isNaN = false) (hb : b.isNaN = false) :
    a.compare b = some (compare (rank a) (rank b)) := by
  cases a with
  | notANumber => cases ha
  | infinity s =>
    cases b with
    | notANumber => cases hb
    | infinity t => cases s <;> cases t <;> rfl
    | zero t => cases s <;> rfl
    | finite t n f _ => cases s <;> cases t <;> rfl
  | zero s =>
    cases b with
    | notANumber => cases hb
    | infinity t => cases t <;> rfl
    | zero t => rfl
    | finite t n f _ => cases t <;> rfl
  | finite s m e _ =>
    cases b with
    | notANumber => cases hb
    | infinity t => cases s <;> cases t <;> rfl
    | zero t => cases s <;> rfl
    | finite t n f _ =>
      cases s with
      | positive =>
        cases t with
        | positive =>
          rw [UnpackedFloat.compare, ← compare_natCast]
          rfl
        | negative => rfl
      | negative =>
        cases t with
        | positive => rfl
        | negative =>
          rw [UnpackedFloat.compare, Ordering.swap_then, ← compare_natCast, ← compare_neg_neg,
            ← compare_neg_neg]
          rfl

theorem unpacked_le_iff (ha : a.isNaN = false) (hb : b.isNaN = false) :
    a.le b = true ↔ rank a ≤ rank b := by
  rw [UnpackedFloat.le, unpacked_compare_eq ha hb, Option.any_some, Ordering.isLE_iff_ne_gt]
  exact compare_le_iff_le

theorem unpacked_lt_iff (ha : a.isNaN = false) (hb : b.isNaN = false) :
    a.lt b = true ↔ rank a < rank b := by
  rw [UnpackedFloat.lt, unpacked_compare_eq ha hb, beq_iff_eq, Option.some_inj]
  exact compare_lt_iff_lt

theorem isNaN_of_le (h : a.le b = true) : a.isNaN = false ∧ b.isNaN = false := by
  cases a <;> cases b <;> first | exact ⟨rfl, rfl⟩ | cases h

end Unpacked

/--
A number as its sign, mantissa and exponent.
-/
def unpack (x : Float) : UnpackedFloat := x.toModel.unpack

section Comparisons

variable {x y z : Float}

theorem le_iff :
    x ≤ y ↔ x.isNaN = false ∧ y.isNaN = false ∧ rank (unpack x) ≤ rank (unpack y) := by
  have hle : x ≤ y ↔ (unpack x).le (unpack y) = true := decide_eq_true_iff
  rw [hle]
  constructor
  . intro h
    obtain ⟨hx, hy⟩ := isNaN_of_le h
    exact ⟨hx, hy, (unpacked_le_iff hx hy).mp h⟩
  . rintro ⟨hx, hy, h⟩
    exact (unpacked_le_iff hx hy).mpr h

theorem le_refl_iff : x ≤ x ↔ x.isNaN = false := by
  rw [le_iff]
  exact ⟨And.left, fun h => ⟨h, h, le_refl _⟩⟩

protected theorem le_trans (hxy : x ≤ y) (hyz : y ≤ z) : x ≤ z := by
  rw [le_iff] at *
  exact ⟨hxy.1, hyz.2.1, hxy.2.2.trans hyz.2.2⟩

/--
Two numbers compare unless one of them is a NaN.
-/
theorem le_of_not_lt (hx : x.isNaN = false) (hy : y.isNaN = false) (h : ¬ x < y) : y ≤ x := by
  have hlt : x < y ↔ rank (unpack x) < rank (unpack y) :=
    decide_eq_true_iff.trans (unpacked_lt_iff hx hy)
  rw [hlt, not_lt] at h
  exact le_iff.mpr ⟨hy, hx, h⟩

end Comparisons

end Waveplan.Double
