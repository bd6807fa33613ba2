import Waveplan.Proofs.Double.Packing

/-!
This module contains that rounding keeps the order of positive numbers. A number is rounded from its
mantissa at the exponent at which it is kept, one more binary digit and whether any digit follows.
-/

namespace Waveplan.Double

open Float.Model (Format UnpackedFloat totalExponent)
open Float.Model.UnpackedFloat

section Representation

variable {em em' : ExtendedMantissa} {w w' : ℚ}

/--
A mantissa with the digit behind it.
-/
def halves (em : ExtendedMantissa) : Nat := 2 * em.mantissa + em.roundBit.toNat

/--
That a mantissa and the digit behind it are the beginning of a number, and the whole of it if no
digit follows.
-/
structure Represents (em : ExtendedMantissa) (w : ℚ) : Prop where
  halves_le : (halves em : ℚ) ≤ 2 * w
  lt_halves : 2 * w < halves em + 1
  exact_iff : em.stickyBit = false ↔ 2 * w = halves em

/--
The mantissa goes up behind more than one half, and behind one half if it is odd.
-/
theorem roundedMantissa_eq (em : ExtendedMantissa) :
    em.roundedMantissa = halves em / 2
      + if halves em % 2 = 0 then 0 else if em.stickyBit then 1 else halves em / 2 % 2 := by
  obtain ⟨m, roundBit, stickyBit⟩ := em
  cases roundBit with
  | false =>
    have hhalves : halves ⟨m, false, stickyBit⟩ = 2 * m := rfl
    rw [hhalves, if_pos (Nat.mul_mod_right 2 m), Nat.mul_div_cancel_left m Nat.two_pos]
    cases stickyBit <;> rfl
  | true =>
    have hhalves : halves ⟨m, true, stickyBit⟩ = 2 * m + 1 := rfl
    have hhalf : (2 * m + 1) / 2 = m := by omega
    rw [hhalves, if_neg (by omega), hhalf]
    cases stickyBit <;> rfl

theorem halves_div_two (em : ExtendedMantissa) : halves em / 2 = em.mantissa := by
  have := Bool.toNat_le em.roundBit
  rw [halves]
  omega

theorem halves_div_le (em : ExtendedMantissa) : halves em / 2 ≤ em.roundedMantissa := by
  rw [roundedMantissa_eq]
  exact Nat.le_add_right _ _

theorem roundedMantissa_le (em : ExtendedMantissa) :
    em.roundedMantissa ≤ (halves em + 1) / 2 := by
  rw [roundedMantissa_eq]
  split
  . omega
  . split <;> omega

theorem Represents.roundedMantissa_le (h : Represents em w) (h' : Represents em' w')
    (hw : w ≤ w') : em.roundedMantissa ≤ em'.roundedMantissa := by
  have hle : halves em ≤ halves em' := by
    have : (halves em : ℚ) < halves em' + 1 := by linarith [h.halves_le, h'.lt_halves]
    exact Nat.lt_succ_iff.mp (by exact_mod_cast this)
  obtain hlt | heq := hle.lt_or_eq
  . have hbelow := Double.roundedMantissa_le em
    have habove := halves_div_le em'
    omega
  . have hsticky : em.stickyBit = true → em'.stickyBit = true := by
      rw [← Bool.not_eq_false, ← Bool.not_eq_false, h.exact_iff, h'.exact_iff, heq]
      intro hexact heq'
      have := h.halves_le
      rw [heq] at this
      exact hexact (by linarith)
    rw [roundedMantissa_eq, roundedMantissa_eq, heq]
    split
    . exact Nat.le_refl _
    . split
      . next hs => rw [if_pos (hsticky hs)]
      . split <;> omega

theorem halves_shiftRightOne (em : ExtendedMantissa) : halves em.shiftRightOne = em.mantissa := by
  have hhalves : halves em.shiftRightOne
      = 2 * (em.mantissa / 2) + (em.mantissa % 2 != 0).toNat := rfl
  rw [hhalves]
  obtain h | h := Nat.mod_two_eq_zero_or_one em.mantissa <;> rw [h] <;> simp <;> omega

theorem Represents.shiftRightOne (h : Represents em w) : Represents em.shiftRightOne (w / 2) := by
  obtain ⟨hle, hlt, hexact⟩ := h
  have hw : 2 * (w / 2) = w := by ring
  have hhalves : (halves em : ℚ) = 2 * em.mantissa + em.roundBit.toNat := by
    rw [halves]
    push_cast
    rfl
  have hsticky : em.shiftRightOne.stickyBit = (em.roundBit || em.stickyBit) := rfl
  rw [hhalves] at hle hlt hexact
  cases hround : em.roundBit with
  | false =>
    rw [hround, Bool.toNat_false, Nat.cast_zero, add_zero] at hle hlt hexact
    constructor <;> rw [halves_shiftRightOne, hw]
    . linarith
    . linarith
    . rw [hsticky, hround, Bool.false_or, hexact]
      constructor <;> intro <;> linarith
  | true =>
    rw [hround, Bool.toNat_true, Nat.cast_one] at hle hlt
    constructor <;> rw [halves_shiftRightOne, hw]
    . linarith
    . linarith
    . rw [hsticky, hround, Bool.true_or]
      exact iff_of_false (by decide) (by linarith)

theorem Represents.shiftRight (h : Represents em w) (k : Nat) :
    Represents (em >>> k) (w / 2 ^ k) := by
  induction k with
  | zero =>
    rw [pow_zero, div_one]
    exact h
  | succ k ih =>
    rw [pow_succ, ← div_div]
    exact ih.shiftRightOne

theorem represents_exact (m : Nat) :
    Represents (ExtendedMantissa.ofMantissaAndAccuracy m .exact) m := by
  have hhalves : halves (ExtendedMantissa.ofMantissaAndAccuracy m .exact) = 2 * m := rfl
  constructor <;> rw [hhalves, Nat.cast_mul, Nat.cast_ofNat]
  . linarith
  . exact iff_of_true rfl rfl

theorem represents_of_mul {m n : Nat} (hn : 0 < n) (hle : halves em * n ≤ 2 * m)
    (hlt : 2 * m < (halves em + 1) * n) (hexact : em.stickyBit = false ↔ 2 * m = halves em * n) :
    Represents em (m / n : ℚ) := by
  have hn' : (0 : ℚ) < n := by exact_mod_cast hn
  constructor
  . rw [← mul_div_assoc, le_div_iff₀ hn']
    exact_mod_cast hle
  . rw [← mul_div_assoc, div_lt_iff₀ hn']
    exact_mod_cast hlt
  . rw [hexact, ← mul_div_assoc, div_eq_iff hn'.ne']
    norm_cast

theorem represents_of_mod {m n : Nat} (hn : 0 < n) (bit : Nat)
    (hhalves : halves em = 2 * (m / n) + bit) (hle : bit * n ≤ 2 * (m % n))
    (hlt : 2 * (m % n) < (bit + 1) * n)
    (hexact : em.stickyBit = false ↔ 2 * (m % n) = bit * n) : Represents em (m / n : ℚ) := by
  have hm : 2 * m = 2 * (m / n) * n + 2 * (m % n) := by
    rw [Nat.mul_assoc, ← Nat.mul_add, Nat.div_add_mod' m n]
  apply represents_of_mul hn <;> rw [hhalves, hm]
  . rw [Nat.add_mul]
    exact Nat.add_le_add_left hle _
  . rw [Nat.add_assoc, Nat.add_mul]
    exact Nat.add_lt_add_left hlt _
  . rw [Nat.add_mul, Nat.add_left_cancel_iff]
    exact hexact

/--
A quotient with a remainder begins with the quotient, and the remainder tells the digits behind it.
-/
theorem represents_div (m : Nat) {n : Nat} (hn : 0 < n) :
    Represents (ExtendedMantissa.ofMantissaAndAccuracy (m / n) (accuracyOfFraction (m % n) n))
      (m / n : ℚ) := by
  have hmod := Nat.mod_lt m hn
  rw [accuracyOfFraction]
  split
  . exact represents_of_mod hn 0 rfl (by omega) (by omega) (iff_of_true rfl (by omega))
  . cases hcompare : compare (2 * (m % n)) n with
    | lt =>
      have hless := Nat.compare_eq_lt.mp hcompare
      exact represents_of_mod hn 0 rfl (by omega) (by omega) (iff_of_false nofun (by omega))
    | eq =>
      have heq := Nat.compare_eq_eq.mp hcompare
      exact represents_of_mod hn 1 rfl (by omega) (by omega) (iff_of_true rfl (by omega))
    | gt =>
      have hgreater := Nat.compare_eq_gt.mp hcompare
      exact represents_of_mod hn 1 rfl (by omega) (by omega) (iff_of_false nofun (by omega))

end Representation

section Exponent

variable {m : Nat} {e f : Int} {s : Sign} {accuracy : Accuracy}

/--
The exponent at which a number is kept.
-/
def exponentFor (m : Nat) (e : Int) : Int := Format.binary64.targetExponent (totalExponent m e)

theorem exponentFor_eq (m : Nat) (e : Int) : exponentFor m e = max (m.log2 + e - 52) (-1074) := by
  have h : exponentFor m e = max (m.log2 + 1 + e - 53) (-1074) := rfl
  omega

theorem mantissa_shiftRight (em : ExtendedMantissa) (k : Nat) :
    (em >>> k).mantissa = em.mantissa / 2 ^ k := by
  induction k with
  | zero => exact (Nat.div_one _).symm
  | succ k ih =>
    have hstep : (em >>> (k + 1)).mantissa = (em >>> k).mantissa / 2 := rfl
    rw [hstep, ih, Nat.div_div_eq_div_mul, Nat.pow_succ]

/--
A mantissa with an accuracy, shifted to the exponent at which its number is kept.
-/
def aligned (m : Nat) (e : Int) (accuracy : Accuracy) : ExtendedMantissa :=
  ExtendedMantissa.ofMantissaAndAccuracy m accuracy >>> (exponentFor m e - e).toNat

theorem shiftToTargetExponent_eq (he : e ≤ exponentFor m e) :
    shiftToTargetExponent .binary64 m e accuracy = (aligned m e accuracy, exponentFor m e) := by
  have hshift : shiftToTargetExponent .binary64 m e accuracy
      = (aligned m e accuracy, e + (exponentFor m e - e).toNat) := rfl
  rw [hshift, Int.toNat_of_nonneg (by omega), Int.add_comm, Int.sub_add_cancel]

/--
Shifting a mantissa to the exponent at which its number is kept leaves 53 bits of it, or fewer at
the smallest exponent.
-/
theorem canonical_aligned (he : e ≤ exponentFor m e) :
    Canonical (aligned m e accuracy).mantissa (exponentFor m e) := by
  have hmantissa : (aligned m e accuracy).mantissa = m / 2 ^ (exponentFor m e - e).toNat := by
    rw [aligned, mantissa_shiftRight]
    cases accuracy with
    | exact => rfl
    | inexact order => cases order <;> rfl
  have hexp := exponentFor_eq m e
  rw [hmantissa]
  generalize ht : exponentFor m e = t at *
  refine ⟨?_, by omega, ?_⟩
  . have hlt : m < 2 ^ (m.log2 + 1) := Nat.lt_log2_self
    have hpow : 2 ^ (m.log2 + 1) ≤ 2 ^ (53 + (t - e).toNat) :=
      Nat.pow_le_pow_right (by decide) (by omega)
    rw [Nat.div_lt_iff_lt_mul (Nat.two_pow_pos _), ← Nat.pow_add]
    omega
  . by_cases hmin : t = -1074
    . exact .inl hmin
    . right
      have hm : m ≠ 0 := by
        rintro rfl
        rw [Nat.log2_zero] at hexp
        omega
      have hle : 2 ^ m.log2 ≤ m := Nat.log2_self_le hm
      have hpow : 2 ^ (52 + (t - e).toNat) ≤ 2 ^ m.log2 :=
        Nat.pow_le_pow_right (by decide) (by omega)
      rw [Nat.le_div_iff_mul_le (Nat.two_pow_pos _), ← Nat.pow_add]
      omega

theorem exponentFor_of_canonical (h : Canonical m e) : exponentFor m e = e := by
  obtain ⟨hlt, hge, hnormal⟩ := h
  have hexp := exponentFor_eq m e
  have hlog : m.log2 < 53 := by
    by_cases hm : m = 0
    . rw [hm, Nat.log2_zero]
      decide
    . exact (Nat.log2_lt hm).mpr hlt
  obtain rfl | hm52 := hnormal
  . omega
  . have := (Nat.le_log2 ((Nat.two_pow_pos 52).trans_le hm52).ne').mpr hm52
    omega

theorem shiftToTargetExponent_of_canonical (h : Canonical m e) :
    shiftToTargetExponent .binary64 m e .exact = (ExtendedMantissa.mk m false false, e) := by
  have hexp := exponentFor_of_canonical h
  rw [shiftToTargetExponent_eq hexp.ge, aligned, hexp, Int.sub_self]
  rfl

theorem shiftToTargetExponent_carry (he : -1074 ≤ e) :
    shiftToTargetExponent .binary64 (2 ^ 53) e .exact
      = (ExtendedMantissa.mk (2 ^ 52) false false, e + 1) := by
  have hexp : exponentFor (2 ^ 53) e = e + 1 := by
    rw [exponentFor_eq, Nat.log2_two_pow]
    omega
  rw [shiftToTargetExponent_eq (by omega), aligned, hexp, Int.add_comm, Int.add_sub_cancel]
  rfl

/--
The number with a rounded mantissa. A mantissa that was rounded up may have a bit too many, which is
taken back by a larger exponent.
-/
def settle (s : Sign) (r : Nat) (e : Int) : UnpackedFloat :=
  if h : r = 0 then .zero s
  else if r = 2 ^ 53 then .finite s (2 ^ 52) (e + 1) (by decide)
  else .finite s r e (Nat.pos_of_ne_zero h)

theorem roundedMantissa_mem {em : ExtendedMantissa} (h : Canonical em.mantissa e) :
    em.mantissa ≤ em.roundedMantissa ∧ em.roundedMantissa ≤ 2 ^ 53 := by
  have hlt := h.mantissa_lt
  have hhalves := halves_div_two em
  have hbelow := roundedMantissa_le em
  have habove := halves_div_le em
  omega

theorem canonical_roundedMantissa {em : ExtendedMantissa} (h : Canonical em.mantissa e)
    (hr : em.roundedMantissa ≠ 2 ^ 53) : Canonical em.roundedMantissa e := by
  obtain ⟨hge, hle⟩ := roundedMantissa_mem h
  exact ⟨by omega, h.exponent_ge, h.normal.imp_right hge.trans'⟩

theorem roundWithAccuracy_eq (he : e ≤ exponentFor m e) :
    roundWithAccuracy .binary64 s m e accuracy
      = settle s (aligned m e accuracy).roundedMantissa (exponentFor m e) := by
  have hcanonical : Canonical (aligned m e accuracy).mantissa (exponentFor m e) :=
    canonical_aligned he
  simp only [roundWithAccuracy, shiftToTargetExponent_eq he]
  by_cases hcarry : (aligned m e accuracy).roundedMantissa = 2 ^ 53
  . simp only [hcarry, shiftToTargetExponent_carry hcanonical.exponent_ge]
    rfl
  . simp only [shiftToTargetExponent_of_canonical (canonical_roundedMantissa hcanonical hcarry),
      settle, if_neg hcarry]

end Exponent

section Order

variable {m n : Nat} {e f : Int} {v v' : ℚ} {u u' : UnpackedFloat}

/--
The number with a mantissa and an exponent.
-/
def value (m : Nat) (e : Int) : ℚ := m * 2 ^ e

theorem value_mul_two_pow (m : Nat) (e : Int) (k : Nat) :
    value (m * 2 ^ k) e = value m (e + k) := by
  rw [value, value, Nat.cast_mul, Nat.cast_pow, Nat.cast_ofNat, mul_assoc, ← zpow_natCast,
    ← zpow_add₀ two_ne_zero, add_comm e]

/--
That a number that is not below zero is rounded to a double.
-/
def Rounds (v : ℚ) (u : UnpackedFloat) : Prop :=
  ∃ em e, Represents em (v / 2 ^ (e : Int)) ∧ Canonical em.mantissa e
    ∧ u = settle .positive em.roundedMantissa e

theorem rounds_roundWithAccuracy {accuracy : Accuracy} {w : ℚ}
    (hw : Represents (ExtendedMantissa.ofMantissaAndAccuracy m accuracy) w)
    (he : e ≤ exponentFor m e) :
    Rounds (w * 2 ^ e) (roundWithAccuracy .binary64 .positive m e accuracy) := by
  refine ⟨aligned m e accuracy, exponentFor m e, ?_, canonical_aligned he, roundWithAccuracy_eq he⟩
  have hscale : w * 2 ^ e / 2 ^ exponentFor m e = w / 2 ^ (exponentFor m e - e).toNat := by
    have hsum : exponentFor m e = e + ((exponentFor m e - e).toNat : Int) := by omega
    conv_lhs => rw [hsum, zpow_add₀ two_ne_zero, zpow_natCast]
    rw [mul_comm w, mul_div_mul_left _ _ (zpow_ne_zero e two_ne_zero)]
  rw [hscale]
  exact hw.shiftRight _

theorem log2_mul_two_pow (hm : 0 < m) (k : Nat) : (m * 2 ^ k).log2 = m.log2 + k := by
  induction k with
  | zero => rw [pow_zero, Nat.mul_one, Nat.add_zero]
  | succ k ih =>
    have hdouble : m * 2 ^ (k + 1) = 2 * (m * 2 ^ k) := by ring
    rw [hdouble, Nat.log2_two_mul (Nat.mul_pos hm (Nat.two_pow_pos k)).ne', ih, Nat.add_assoc]

theorem rounds_round (hm : 0 < m) (e : Int) :
    Rounds (value m e) (UnpackedFloat.round .binary64 .positive m e) := by
  have hround : UnpackedFloat.round .binary64 .positive m e
      = roundWithAccuracy .binary64 .positive (m <<< (e - exponentFor m e).toNat)
        (e - (e - exponentFor m e).toNat) .exact := rfl
  have hexp := exponentFor_eq m e
  have hexp' := exponentFor_eq (m * 2 ^ (e - exponentFor m e).toNat)
    (e - (e - exponentFor m e).toNat)
  rw [log2_mul_two_pow hm] at hexp'
  have hvalue : value m e = value (m * 2 ^ (e - exponentFor m e).toNat)
      (e - (e - exponentFor m e).toNat) := by
    rw [value_mul_two_pow, Int.sub_add_cancel]
  rw [hround, hvalue, Nat.shiftLeft_eq]
  exact rounds_roundWithAccuracy (represents_exact _) (by omega)

theorem rounds_of_canonical {hm : 0 < m} (h : Canonical m e) :
    Rounds (value m e) (.finite .positive m e hm) := by
  refine ⟨ExtendedMantissa.mk m false false, e, ?_, h, ?_⟩
  . rw [value, mul_div_cancel_right₀ _ (zpow_ne_zero e two_ne_zero)]
    exact represents_exact m
  . have hr : (ExtendedMantissa.mk m false false).roundedMantissa = m := rfl
    rw [hr, settle, dif_neg hm.ne', if_neg h.mantissa_lt.ne]

theorem Rounds.isNonnegative (h : Rounds v u) : IsNonnegative u := by
  obtain ⟨em, e, -, hcanonical, rfl⟩ := h
  rw [settle]
  split
  . exact .zero _
  . next hr =>
    split
    . have := hcanonical.exponent_ge
      exact .finite _ ⟨by decide, by omega, .inr (le_refl _)⟩
    . next hcarry =>
      exact .finite _ (canonical_roundedMantissa hcanonical hcarry)

theorem Represents.mantissa_le {em : ExtendedMantissa} {w : ℚ} (h : Represents em w) :
    (em.mantissa : ℚ) ≤ w := by
  have hle : 2 * em.mantissa ≤ halves em := Nat.le_add_right _ _
  have hle' : (2 * em.mantissa : ℚ) ≤ halves em := by exact_mod_cast hle
  linarith [h.halves_le]

theorem Represents.lt_mantissa {em : ExtendedMantissa} {w : ℚ} (h : Represents em w) :
    w < em.mantissa + 1 := by
  have hle : halves em ≤ 2 * em.mantissa + 1 := Nat.add_le_add_left (Bool.toNat_le _) _
  have hle' : (halves em : ℚ) ≤ 2 * em.mantissa + 1 := by exact_mod_cast hle
  linarith [h.lt_halves]

/--
A larger number is kept at the same or a larger exponent.
-/
theorem Represents.exponent_le {em em' : ExtendedMantissa} (h : Represents em (v / 2 ^ e))
    (hc : Canonical em.mantissa e) (h' : Represents em' (v' / 2 ^ f))
    (hc' : Canonical em'.mantissa f) (hv : v ≤ v') : e ≤ f := by
  by_contra hlt
  have hmantissa : 2 ^ 52 ≤ em.mantissa := hc.normal.resolve_left (by
    have := hc'.exponent_ge
    omega)
  have hlower : (2 ^ 52 : ℚ) ≤ v / 2 ^ e := by
    have : (2 ^ 52 : ℚ) ≤ em.mantissa := by exact_mod_cast hmantissa
    exact this.trans h.mantissa_le
  have hupper : v' / 2 ^ f < (2 ^ 53 : ℚ) :=
    h'.lt_mantissa.trans_le (by exact_mod_cast hc'.mantissa_lt)
  rw [le_div_iff₀ (zpow_pos two_pos e)] at hlower
  rw [div_lt_iff₀ (zpow_pos two_pos f)] at hupper
  have hpow : (2 ^ f : ℚ) ≤ 2 ^ (e - 1) := zpow_le_zpow_right₀ one_le_two (by omega)
  rw [zpow_sub_one₀ two_ne_zero] at hpow
  linarith

theorem rank_settle_le {r r' : Nat} (hr : r ≤ 2 ^ 53) (hr' : r' ≤ 2 ^ 53)
    (h : e < f ∧ 2 ^ 52 ≤ r' ∨ e = f ∧ r ≤ r') :
    rank (settle .positive r e) ≤ rank (settle .positive r' f) := by
  by_cases hzero : r = 0
  . rw [settle, dif_pos hzero, settle]
    split
    . exact le_refl _
    . split <;> simp [rank, Prod.Lex.toLex_le_toLex]
  . have hzero' : r' ≠ 0 := by omega
    rw [settle, dif_neg hzero, settle, dif_neg hzero']
    split
    . split <;> simp [rank, Prod.Lex.toLex_le_toLex] <;> omega
    . split <;> simp [rank, Prod.Lex.toLex_le_toLex] <;> omega

/--
A larger number is rounded to the same or a larger double.
-/
theorem Rounds.isBelow (h : Rounds v u) (h' : Rounds v' u') (hv : v ≤ v') : IsBelow u u' := by
  apply isBelow_of_rank_le h.isNonnegative h'.isNonnegative
  obtain ⟨em, e, hw, hc, rfl⟩ := h
  obtain ⟨em', f, hw', hc', rfl⟩ := h'
  obtain ⟨hle, hr⟩ := roundedMantissa_mem hc
  obtain ⟨hle', hr'⟩ := roundedMantissa_mem hc'
  apply rank_settle_le hr hr'
  obtain hlt | rfl := (hw.exponent_le hc hw' hc' hv).lt_or_eq
  . have := hc.exponent_ge
    have := hc'.normal
    omega
  . exact .inr ⟨rfl, hw.roundedMantissa_le hw' (by gcongr)⟩

end Order

end Waveplan.Double
