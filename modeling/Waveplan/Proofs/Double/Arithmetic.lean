import Waveplan.Number.Double
import Waveplan.Proofs.Double.Rounding

/-!
This module contains that sums, products and quotients of numbers that are not below zero are the
exact ones rounded, so that adding to a number does not make it smaller and dividing numbers by the
same one keeps their order.
-/

namespace Waveplan.Double

open Float.Model (Format UnpackedFloat totalExponent)
open Float.Model.UnpackedFloat (Sign roundWithAccuracy divCore accuracyOfFraction)

variable {a b : UnpackedFloat} {m n : Nat} {e f : Int} {hm : 0 < m} {hn : 0 < n}

theorem value_pos (hm : 0 < m) (e : Int) : 0 < value m e :=
  mul_pos (by exact_mod_cast hm) (zpow_pos two_pos e)

theorem value_le_value_of_le (h : m ≤ n) (e : Int) : value m e ≤ value n e := by
  unfold value
  gcongr

/--
Numbers in the form in which they are kept compare as their exponents and mantissas.
-/
theorem Canonical.value_le (h : Canonical m e) (h' : Canonical n f)
    (hle : e < f ∨ e = f ∧ m ≤ n) : value m e ≤ value n f := by
  obtain hlt | ⟨rfl, hmn⟩ := hle
  . obtain ⟨k, rfl⟩ : ∃ k : Nat, f = e + k := ⟨(f - e).toNat, by omega⟩
    rw [← value_mul_two_pow]
    apply value_le_value_of_le
    have hn52 : 2 ^ 52 ≤ n := h'.normal.resolve_left (by
      have := h.exponent_ge
      omega)
    calc m ≤ 2 ^ 52 * 2 ^ 1 := h.mantissa_lt.le
      _ ≤ n * 2 ^ k := Nat.mul_le_mul hn52 (Nat.pow_le_pow_right two_pos (by omega))
  . exact value_le_value_of_le hmn e

section Operations

theorem rounds_natCast (hm : 0 < m) (e : Int) (s : Sign) :
    Rounds (value m e) (UnpackedFloat.normalize .binary64 m e s) := by
  have h : UnpackedFloat.normalize .binary64 m e s
      = UnpackedFloat.round .binary64 .positive m e := by
    rw [UnpackedFloat.normalize, Int.compare_eq_gt.mpr (by omega)]
    rfl
  rw [h]
  exact rounds_round hm e

/--
The sum of two numbers is an integer at the smaller one of their exponents.
-/
theorem rounds_add :
    Rounds (value m e + value n f)
      (UnpackedFloat.add .binary64 (.finite .positive m e hm) (.finite .positive n f hn)) := by
  have hadd : UnpackedFloat.add .binary64 (.finite .positive m e hm) (.finite .positive n f hn)
      = UnpackedFloat.normalize .binary64 (((m <<< (e - min e f).toNat : Nat) : Int)
        + ((n <<< (f - min e f).toNat : Nat) : Int)) (min e f) .positive := rfl
  have hm' : value m e = value (m * 2 ^ (e - min e f).toNat) (min e f) := by
    rw [value_mul_two_pow, Int.toNat_of_nonneg (by omega), add_sub_cancel]
  have hn' : value n f = value (n * 2 ^ (f - min e f).toNat) (min e f) := by
    rw [value_mul_two_pow, Int.toNat_of_nonneg (by omega), add_sub_cancel]
  have hsum : value m e + value n f
      = value (m * 2 ^ (e - min e f).toNat + n * 2 ^ (f - min e f).toNat) (min e f) := by
    rw [hm', hn', value, value, value, Nat.cast_add, add_mul]
  rw [hadd, hsum, Nat.shiftLeft_eq, Nat.shiftLeft_eq, ← Int.natCast_add]
  exact rounds_natCast (Nat.add_pos_left (Nat.mul_pos hm (Nat.two_pow_pos _)) _) _ _

/--
A product of mantissas of 53 bits has more digits than are kept.
-/
theorem rounds_mul (hm52 : 2 ^ 52 ≤ m) (hn52 : 2 ^ 52 ≤ n) :
    Rounds (value (m * n) (e + f))
      (UnpackedFloat.mul .binary64 (.finite .positive m e hm) (.finite .positive n f hn)) := by
  have hmul : UnpackedFloat.mul .binary64 (.finite .positive m e hm) (.finite .positive n f hn)
      = roundWithAccuracy .binary64 .positive (m * n) (e + f) .exact := rfl
  have hle : 2 ^ (52 + 52) ≤ m * n := (pow_add 2 52 52).le.trans (Nat.mul_le_mul hm52 hn52)
  have hlog := (Nat.le_log2 (Nat.mul_pos hm hn).ne').mpr hle
  have hexp := exponentFor_eq (m * n) (e + f)
  rw [hmul]
  exact rounds_roundWithAccuracy (represents_exact _) (by omega)

/--
Quotients are computed with all digits that are kept.
-/
theorem le_log2_div (hn : 0 < n) {k : Nat} (h : n.log2 + 53 ≤ m.log2 + k) (hm : 0 < m) :
    52 ≤ (m * 2 ^ k / n).log2 := by
  have hle : 2 ^ 52 ≤ m * 2 ^ k / n := by
    rw [Nat.le_div_iff_mul_le hn]
    calc 2 ^ 52 * n ≤ 2 ^ 52 * 2 ^ (n.log2 + 1) := Nat.mul_le_mul_left _ Nat.lt_log2_self.le
      _ = 2 ^ (n.log2 + 53) := by ring
      _ ≤ 2 ^ (m.log2 + k) := Nat.pow_le_pow_right two_pos h
      _ = 2 ^ m.log2 * 2 ^ k := pow_add ..
      _ ≤ m * 2 ^ k := Nat.mul_le_mul_right _ (Nat.log2_self_le hm.ne')
  exact (Nat.le_log2 ((Nat.two_pow_pos _).trans_le hle).ne').mpr hle

theorem value_div_value (hn : 0 < n) (k : Nat) {t : Int} :
    value m (f + t + k) / value n f = ((m * 2 ^ k : Nat) / n : ℚ) * 2 ^ t := by
  have hn' : (n : ℚ) ≠ 0 := by exact_mod_cast hn.ne'
  have hf : (2 ^ f : ℚ) ≠ 0 := zpow_ne_zero f two_ne_zero
  rw [value, value, zpow_add₀ two_ne_zero, zpow_add₀ two_ne_zero, zpow_natCast, Nat.cast_mul,
    Nat.cast_pow, Nat.cast_ofNat]
  field_simp

theorem rounds_div :
    Rounds (value m e / value n f)
      (UnpackedFloat.div .binary64 (.finite .positive m e hm) (.finite .positive n f hn)) := by
  obtain ⟨t, ht⟩ : ∃ t, t = min (e - f)
      (Format.binary64.targetExponent (totalExponent m e - totalExponent n f)) := ⟨_, rfl⟩
  have hdiv : UnpackedFloat.div .binary64 (.finite .positive m e hm) (.finite .positive n f hn)
      = roundWithAccuracy .binary64 .positive (m <<< (e - f - t).toNat / n) t
        (accuracyOfFraction (m <<< (e - f - t).toNat % n) n) := by
    rw [ht]
    rfl
  have htarget : Format.binary64.targetExponent (totalExponent m e - totalExponent n f)
      = max (m.log2 + 1 + e - (n.log2 + 1 + f) - 53) (-1074) := rfl
  have hexp := exponentFor_eq (m * 2 ^ (e - f - t).toNat / n) t
  have hvalue : value m e / value n f
      = ((m * 2 ^ (e - f - t).toNat : Nat) / n : ℚ) * 2 ^ t := by
    have he : e = f + t + (e - f - t).toNat := by omega
    conv_lhs => rw [he]
    exact value_div_value hn _
  rw [hdiv, hvalue, Nat.shiftLeft_eq]
  apply rounds_roundWithAccuracy (represents_div _ hn)
  rw [htarget] at ht
  by_cases hmin : t ≤ -1074
  . omega
  . have := le_log2_div hn (by omega : n.log2 + 53 ≤ m.log2 + (e - f - t).toNat) hm
    omega

end Operations

section Monotonicity

theorem infinity_add (h : IsNonnegative a) :
    UnpackedFloat.add .binary64 (.infinity .positive) a = .infinity .positive := by
  cases h <;> rfl

theorem add_infinity (h : IsNonnegative a) :
    UnpackedFloat.add .binary64 a (.infinity .positive) = .infinity .positive := by
  cases h <;> rfl

theorem IsNonnegative.zero_add (h : IsNonnegative a) (s : Sign) :
    IsNonnegative (UnpackedFloat.add .binary64 (.zero s) a) := by
  cases h with
  | zero t => cases s <;> cases t <;> exact .zero _
  | finite hm h => exact .finite hm h
  | infinity => exact .infinity

theorem IsNonnegative.isBelow_add (ha : IsNonnegative a) (hb : IsNonnegative b) :
    IsBelow a (UnpackedFloat.add .binary64 a b) := by
  cases ha with
  | zero s => exact .zero s (hb.zero_add s)
  | infinity =>
    rw [infinity_add hb]
    exact .infinity .infinity
  | finite hm ha =>
    cases hb with
    | zero t => exact IsNonnegative.isBelow_self (.finite hm ha)
    | infinity =>
      rw [add_infinity (.finite hm ha)]
      exact .infinity (.finite hm ha)
    | finite hn hb =>
      apply (rounds_of_canonical ha).isBelow rounds_add
      exact le_add_of_nonneg_right (value_pos hn _).le

theorem IsNonnegative.div (h : IsNonnegative a) :
    IsNonnegative (UnpackedFloat.div .binary64 a (.finite .positive n f hn)) := by
  cases h with
  | zero s => exact .zero _
  | infinity => exact .infinity
  | finite => exact rounds_div.isNonnegative

theorem IsBelow.div (h : IsBelow a b) :
    IsBelow (UnpackedFloat.div .binary64 a (.finite .positive n f hn))
      (UnpackedFloat.div .binary64 b (.finite .positive n f hn)) := by
  cases h with
  | zero s hb => exact .zero _ hb.div
  | infinity ha => exact .infinity ha.div
  | finite hm hm' ha hb h =>
    apply rounds_div.isBelow rounds_div
    have hle := ha.value_le hb h
    have hpos := value_pos hn f
    gcongr

end Monotonicity

section Float

variable {x y d : Float}

theorem unpack_zero : unpack (Number.zero : Float) = .zero .positive := rfl

theorem kept_unpack (x : Float) : kept (unpack x) = unpack x :=
  congrArg (UnpackedFloat.unpack .binary64)
    (UnpackedFloat.pack_unpack_of_valid x.toModel.valid)

theorem isNonnegative_unpack (h : (Number.zero : Float) ≤ x) : IsNonnegative (unpack x) := by
  obtain ⟨-, hnan, hrank⟩ := le_iff.mp h
  rw [unpack_zero] at hrank
  exact isNonnegative_of_rank_zero_le hnan hrank fun _ _ _ _ hx => (canonical_of_unpack hx).1

theorem isBelow_unpack (hx : (Number.zero : Float) ≤ x) (hxy : x ≤ y) :
    IsBelow (unpack x) (unpack y) :=
  isBelow_of_rank_le (isNonnegative_unpack hx) (isNonnegative_unpack (Double.le_trans hx hxy))
    (le_iff.mp hxy).2.2

theorem le_of_isBelow (h : IsBelow (unpack x) (unpack y)) : x ≤ y :=
  le_iff.mpr ⟨h.left.isNaN_eq, h.right.isNaN_eq, h.rank_le⟩

theorem zero_le_of_isNonnegative (h : IsNonnegative (unpack x)) : (Number.zero : Float) ≤ x :=
  le_of_isBelow (unpack_zero ▸ .zero _ h)

theorem le_add (hx : (Number.zero : Float) ≤ x) (hd : (Number.zero : Float) ≤ d) :
    x ≤ x + d := by
  have h := ((isNonnegative_unpack hx).isBelow_add (isNonnegative_unpack hd)).kept
  rw [kept_unpack] at h
  exact le_of_isBelow h

theorem unpack_div (hd : unpack d = .finite .positive n f hn) (x : Float) : unpack (x / d)
    = kept (UnpackedFloat.div .binary64 (unpack x) (.finite .positive n f hn)) := by
  rw [← hd]
  rfl

theorem zero_le_div (hx : (Number.zero : Float) ≤ x)
    (hd : unpack d = .finite .positive n f hn) : (Number.zero : Float) ≤ x / d := by
  apply zero_le_of_isNonnegative
  rw [unpack_div hd]
  exact (isNonnegative_unpack hx).div.kept

/--
Dividing by a number above zero keeps the order.
-/
theorem div_le_div (hx : (Number.zero : Float) ≤ x) (hxy : x ≤ y)
    (hd : unpack d = .finite .positive n f hn) : x / d ≤ y / d := by
  apply le_of_isBelow
  rw [unpack_div hd, unpack_div hd]
  exact (isBelow_unpack hx hxy).div.kept

end Float

end Waveplan.Double
