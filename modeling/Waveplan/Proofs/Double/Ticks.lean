import Waveplan.Proofs.Double.Arithmetic
import Waveplan.Proofs.Exact

/-!
This module contains that times in seconds which are in order fall on ticks which are in order, all
computed with double precision numbers.
-/

namespace Waveplan.Double

open Float.Model (UnpackedFloat)
open Float.Model.UnpackedFloat (Sign)

section Ceiling

variable {m n : Nat} {e f : Int} {x y : Float}

theorem ceilBinary_le_iff {k : Nat} : ceilBinary m e ≤ k ↔ value m e ≤ k := by
  rw [ceilBinary, value]
  split
  . next he =>
    have hpow : (m : ℚ) * 2 ^ e = (m * Nat.pow 2 e.toNat : Nat) := by
      rw [Nat.pow_eq, Nat.cast_mul, Nat.cast_pow, Nat.cast_ofNat, ← zpow_natCast,
        Int.toNat_of_nonneg he]
    rw [hpow, Nat.cast_le]
  . next he =>
    have hpow : (2 ^ e : ℚ) = ((Nat.pow 2 (-e).toNat : Nat) : ℚ)⁻¹ := by
      rw [Nat.pow_eq, Nat.cast_pow, Nat.cast_ofNat, ← zpow_natCast, ← zpow_neg,
        Int.toNat_of_nonneg (by omega), neg_neg]
    have hpos : 0 < Nat.pow 2 (-e).toNat := Nat.two_pow_pos _
    rw [hpow, ← div_eq_mul_inv, div_le_iff₀ (by exact_mod_cast hpos),
      Nat.div_le_iff_le_mul_add_pred hpos, Nat.add_le_add_iff_right, Nat.mul_comm]
    norm_cast

theorem ceilBinary_mono (h : value m e ≤ value n f) : ceilBinary m e ≤ ceilBinary n f :=
  ceilBinary_le_iff.mpr (h.trans (ceilBinary_le_iff.mp (Nat.le_refl _)))

theorem ceilTick_mono (hx : (Number.zero : Float) ≤ x) (hxy : x ≤ y) :
    ceilTick x ≤ ceilTick y := by
  have h := isBelow_unpack hx hxy
  rw [ceilTick, ceilTick]
  unfold unpack at h
  generalize x.toModel.unpack = a at *
  generalize y.toModel.unpack = b at *
  cases h with
  | zero => exact Nat.zero_le _
  | finite hm hn ha hb h =>
    have hceil := ceilBinary_mono (ha.value_le hb h)
    dsimp only
    omega
  | infinity ha =>
    cases ha with
    | zero => exact Nat.zero_le _
    | finite => exact Nat.min_le_left _ _
    | infinity => exact Nat.le_refl _

end Ceiling

section Seconds

variable {m n : Nat} {e f : Int} {hm : 0 < m} {hn : 0 < n} {u : UnpackedFloat}

theorem exists_finite_of_isBelow (hlow : IsBelow (.finite .positive m e hm) u)
    (hhigh : IsBelow u (.finite .positive n f hn)) :
    ∃ m' e', ∃ hm' : 0 < m', u = .finite .positive m' e' hm' ∧ Canonical m' e' ∧ e ≤ e'
      ∧ e' ≤ f := by
  cases hlow with
  | finite _ hm' _ h hle =>
    cases hhigh with
    | finite _ _ _ _ hle' => exact ⟨_, _, hm', rfl, h, by omega, by omega⟩
  | infinity _ => cases hhigh

theorem canonical_power (he : -1074 ≤ e) : Canonical (2 ^ 52) e :=
  ⟨by decide, he, .inr (Nat.le_refl _)⟩

/--
What lies between two powers of two is rounded to a number with an exponent between theirs.
-/
theorem Rounds.exists_kept_eq {v : ℚ} (h : Rounds v u) (he : -1074 < e) (hef : e ≤ f)
    (hf : f ≤ 971) (hev : value (2 ^ 52) e ≤ v) (hvf : v ≤ value (2 ^ 52) f) :
    ∃ m' e', ∃ hm' : 0 < m', kept u = .finite .positive m' e' hm' ∧ 2 ^ 52 ≤ m' ∧ m' < 2 ^ 53
      ∧ e ≤ e' ∧ e' ≤ f := by
  have hpos : 0 < 2 ^ 52 := Nat.two_pow_pos _
  have hlow : IsBelow (.finite .positive (2 ^ 52) e hpos) u :=
    (rounds_of_canonical (canonical_power he.le)).isBelow h hev
  have hhigh : IsBelow u (.finite .positive (2 ^ 52) f hpos) :=
    h.isBelow (rounds_of_canonical (canonical_power (he.le.trans hef))) hvf
  obtain ⟨m', e', hm', rfl, hcanonical, hle, hle'⟩ := exists_finite_of_isBelow hlow hhigh
  have hnormal : 2 ^ 52 ≤ m' := hcanonical.normal.resolve_left (by omega)
  exact ⟨m', e', hm', kept_finite hcanonical (hle'.trans hf), hnormal, hcanonical.mantissa_lt,
    hle, hle'⟩

theorem exists_kept_mul_eq (hm52 : 2 ^ 52 ≤ m) (hn52 : 2 ^ 52 ≤ n) (hm53 : m < 2 ^ 53)
    (hn53 : n < 2 ^ 53) (hlow : -1126 < e + f) (hhigh : e + f ≤ 917) :
    ∃ m' e', ∃ hm' : 0 < m', kept (UnpackedFloat.mul .binary64 (.finite .positive m e hm)
      (.finite .positive n f hn)) = .finite .positive m' e' hm' := by
  have hrounds : Rounds (value (m * n) (e + f))
      (UnpackedFloat.mul .binary64 (.finite .positive m e hm) (.finite .positive n f hn)) :=
    rounds_mul hm52 hn52
  have hlower : value (2 ^ 52) (e + f + 52) ≤ value (m * n) (e + f) :=
    calc value (2 ^ 52) (e + f + 52) = value (2 ^ 52 * 2 ^ 52) (e + f) :=
          (value_mul_two_pow (2 ^ 52) (e + f) 52).symm
      _ ≤ value (m * n) (e + f) := value_le_value_of_le (Nat.mul_le_mul hm52 hn52) _
  have hle : m * n ≤ 2 ^ 52 * 2 ^ 54 :=
    (Nat.mul_le_mul hm53.le hn53.le).trans (by norm_num)
  have hupper : value (m * n) (e + f) ≤ value (2 ^ 52) (e + f + 54) :=
    calc value (m * n) (e + f) ≤ value (2 ^ 52 * 2 ^ 54) (e + f) := value_le_value_of_le hle _
      _ = value (2 ^ 52) (e + f + 54) := value_mul_two_pow (2 ^ 52) (e + f) 54
  obtain ⟨m', e', hm', hkept, -⟩ :=
    hrounds.exists_kept_eq (by omega) (by omega) (by omega) hlower hupper
  exact ⟨m', e', hm', hkept⟩

theorem exists_unpack_ofNat {k : Nat} (hpos : 0 < k) (hk : k < wordModulus) :
    ∃ m e, ∃ hm : 0 < m, unpack (Number.ofNat k : Float) = .finite .positive m e hm
      ∧ 2 ^ 52 ≤ m ∧ m < 2 ^ 53 ∧ -52 ≤ e ∧ e ≤ 12 := by
  have hle : k ≤ 2 ^ 52 * 2 ^ 12 := by
    rw [wordModulus] at hk
    omega
  have hword : k.toUInt64.toNat = k := UInt64.toNat_ofNat_of_lt' hk
  have hofNat : unpack (Number.ofNat k : Float)
      = kept (UnpackedFloat.normalize .binary64 (k.toUInt64.toNat : Int) 0 .positive) := by
    have hconvert : (Number.ofNat k : Float) = k.toUInt64.toFloat := if_pos hk
    rw [hconvert]
    rfl
  rw [hofNat, hword]
  apply (rounds_natCast hpos 0 .positive).exists_kept_eq (by decide) (by decide) (by decide)
  . calc value (2 ^ 52) (-52) ≤ value (k * 2 ^ 52) (-52) :=
        value_le_value_of_le (Nat.le_mul_of_pos_left _ hpos) _
      _ = value k 0 := value_mul_two_pow k (-52) 52
  . calc value k 0 ≤ value (2 ^ 52 * 2 ^ 12) 0 := value_le_value_of_le hle 0
      _ = value (2 ^ 52) 12 := value_mul_two_pow (2 ^ 52) 0 12

theorem unpack_nanosecond : unpack (TimeStep.nanosecond : Float)
    = .finite .positive 4835703278458517 (-82) (by decide) := rfl

/--
The seconds of a time step are a finite number above zero.
-/
theorem exists_unpack_seconds (step : TimeStep) :
    ∃ m e, ∃ hm : 0 < m, unpack (step.seconds : Float) = .finite .positive m e hm := by
  have hns : 0 < step.ns.toNat := step.ns_pos
  obtain ⟨m, e, hm, hofNat, hm52, hm53, hlow, hhigh⟩ :=
    exists_unpack_ofNat hns step.ns.toNat_lt
  have hmul : unpack (step.seconds : Float) = kept (UnpackedFloat.mul .binary64
      (.finite .positive m e hm) (.finite .positive 4835703278458517 (-82) (by decide))) := by
    rw [← hofNat, ← unpack_nanosecond]
    rfl
  rw [hmul]
  exact exists_kept_mul_eq hm52 (by decide) hm53 (by decide) (by omega) (by omega)

/--
Times that are in order fall on ticks that are in order.
-/
theorem tickAt_mono (step : TimeStep) {x y : Float} (hx : (Number.zero : Float) ≤ x)
    (hxy : x ≤ y) : step.tickAt x ≤ step.tickAt y := by
  obtain ⟨m, e, hm, hseconds⟩ := exists_unpack_seconds step
  exact Word.nearest_le_nearest
    (ceilTick_mono (zero_le_div hx hseconds) (div_le_div hx hxy hseconds))

end Seconds

end Waveplan.Double
