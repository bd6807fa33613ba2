import Waveplan.Proofs.Double.Order

/-!
This module contains the form in which double precision numbers are kept, and that a number in this
form survives being packed into a word unless its exponent is too large, which gives infinity.
-/

namespace Waveplan.Double

open Float.Model (UnpackedFloat)
open Float.Model.UnpackedFloat (Sign packComponents unpackMantissa unpackExponent
  unpackMantissa_packComponents unpackExponent_packComponents unpackSign_packComponents)

/--
A mantissa of 53 bits, or of fewer ones at the smallest exponent.
-/
structure Canonical (m : Nat) (e : Int) : Prop where
  mantissa_lt : m < 2 ^ 53
  exponent_ge : -1074 ≤ e
  normal : e = -1074 ∨ 2 ^ 52 ≤ m

/--
What is left of a number after it was packed into a word.
-/
def kept (a : UnpackedFloat) : UnpackedFloat :=
  UnpackedFloat.unpack .binary64 (UnpackedFloat.pack .binary64 a)

section Components

variable {s : Sign} {e : BitVec 11} {m : BitVec 52}

theorem toNat_implicit_append (m : BitVec 52) : (1#1 ++ m).toNat = 2 ^ 52 + m.toNat := by
  rw [BitVec.toNat_append, ← Nat.shiftLeft_add_eq_or_of_lt m.isLt, Nat.shiftLeft_eq]
  rfl

theorem unpack_packComponents_normal (hzero : e ≠ 0#11) (hones : e ≠ -1#11) :
    UnpackedFloat.unpack .binary64 (packComponents .binary64 s e m)
      = .finite s (2 ^ 52 + m.toNat) (e.toNat - 1075) (by omega) := by
  simp only [UnpackedFloat.unpack, unpackExponent_packComponents, unpackMantissa_packComponents,
    unpackSign_packComponents, Sign.ofBitVec_toBitVec, if_neg hzero, if_neg hones,
    toNat_implicit_append]
  rfl

theorem unpack_packComponents_subnormal (hm : 0 < m.toNat) :
    UnpackedFloat.unpack .binary64 (packComponents .binary64 s 0#11 m)
      = .finite s m.toNat (-1074) hm := by
  have hones : 0#11 ≠ -1#11 := by decide
  have hzero : m ≠ 0#52 := by
    rintro rfl
    exact Nat.lt_irrefl 0 hm
  simp only [UnpackedFloat.unpack, unpackExponent_packComponents, unpackMantissa_packComponents,
    unpackSign_packComponents, Sign.ofBitVec_toBitVec, if_neg hones, dif_neg hzero]
  rfl

end Components

section Kept

variable {s : Sign} {m : Nat} {e : Int} {hm : 0 < m}

theorem kept_zero (s : Sign) : kept (.zero s) = .zero s := by
  cases s <;> rfl

theorem kept_infinity (s : Sign) : kept (.infinity s) = .infinity s := by
  cases s <;> rfl

theorem kept_overflow (he : 971 < e) : kept (.finite s m e hm) = .infinity s := by
  have hlarge : 2 ^ 11 ≤ (e + 1023 + 52).toNat + 1 := by omega
  have hpack : UnpackedFloat.pack .binary64 (.finite s m e hm)
      = UnpackedFloat.pack .binary64 (.infinity s) := if_pos hlarge
  rw [kept, hpack]
  exact kept_infinity s

theorem kept_normal (hge : -1074 ≤ e) (hle : e ≤ 971) (hm52 : 2 ^ 52 ≤ m) (hlt : m < 2 ^ 53) :
    kept (.finite s m e hm) = .finite s m e hm := by
  have hfits : ¬ 2 ^ 11 ≤ (e + 1023 + 52).toNat + 1 := by omega
  have hlog : m.log2 + 1 = 53 := by
    rw [(Nat.log2_eq_iff hm.ne').mpr ⟨hm52, hlt⟩]
  have hpack : UnpackedFloat.pack .binary64 (.finite s m e hm)
      = packComponents .binary64 s (BitVec.ofNat 11 (e + 1023 + 52).toNat) (BitVec.ofNat 52 m) :=
    (if_neg hfits).trans (if_pos hlog)
  have hexponent : (BitVec.ofNat 11 (e + 1023 + 52).toNat).toNat = (e + 1023 + 52).toNat := by
    rw [BitVec.toNat_ofNat, Nat.mod_eq_of_lt (by omega)]
  have hmantissa : (BitVec.ofNat 52 m).toNat = m - 2 ^ 52 := by
    rw [BitVec.toNat_ofNat]
    omega
  rw [kept, hpack, unpack_packComponents_normal]
  . rw [UnpackedFloat.finite.injEq, hexponent, hmantissa]
    exact ⟨rfl, by omega, by omega⟩
  . intro h
    have := congrArg BitVec.toNat h
    rw [hexponent, BitVec.toNat_ofNat] at this
    omega
  . intro h
    have := congrArg BitVec.toNat h
    rw [hexponent] at this
    change _ = 2047 at this
    omega

theorem kept_subnormal (hlt : m < 2 ^ 52) :
    kept (.finite s m (-1074) hm) = .finite s m (-1074) hm := by
  have hlog : ¬ m.log2 + 1 = 53 := by
    have := (Nat.log2_lt hm.ne').mpr hlt
    omega
  have hpack : UnpackedFloat.pack .binary64 (.finite s m (-1074) hm)
      = packComponents .binary64 s 0#11 (BitVec.ofNat 52 m) :=
    if_neg hlog
  have hmantissa : (BitVec.ofNat 52 m).toNat = m := by
    rw [BitVec.toNat_ofNat, Nat.mod_eq_of_lt hlt]
  rw [kept, hpack, unpack_packComponents_subnormal (by rwa [hmantissa]),
    UnpackedFloat.finite.injEq, hmantissa]
  exact ⟨rfl, rfl, rfl⟩

theorem kept_finite (h : Canonical m e) (hle : e ≤ 971) :
    kept (.finite s m e hm) = .finite s m e hm := by
  by_cases hm52 : 2 ^ 52 ≤ m
  . exact kept_normal h.exponent_ge hle hm52 h.mantissa_lt
  . obtain rfl := h.normal.resolve_right hm52
    exact kept_subnormal (Nat.lt_of_not_le hm52)

end Kept

/--
The mantissa and the exponent of a finite number are in the form in which numbers are kept.
-/
theorem canonical_of_unpack {bits : BitVec 64} {s : Sign} {m : Nat} {e : Int} {hm : 0 < m}
    (h : UnpackedFloat.unpack .binary64 bits = .finite s m e hm) : Canonical m e ∧ e ≤ 971 := by
  have hmantissa : (@unpackMantissa .binary64 bits).toNat < 2 ^ 52 := BitVec.isLt _
  have hexponent : (@unpackExponent .binary64 bits).toNat < 2 ^ 11 := BitVec.isLt _
  rw [UnpackedFloat.unpack] at h
  split at h
  . split at h <;> cases h
  . next hones =>
    replace hones : (@unpackExponent .binary64 bits).toNat ≠ 2047 := fun heq =>
      hones (BitVec.eq_of_toNat_eq heq)
    split at h
    . next hzero =>
      split at h
      . cases h
      . rw [UnpackedFloat.finite.injEq, hzero] at h
        obtain ⟨-, rfl, rfl⟩ := h
        exact ⟨⟨by omega, by decide, .inl rfl⟩, by decide⟩
    . next hzero =>
      replace hzero : (@unpackExponent .binary64 bits).toNat ≠ 0 := fun heq =>
        hzero (BitVec.eq_of_toNat_eq heq)
      rw [UnpackedFloat.finite.injEq, toNat_implicit_append] at h
      obtain ⟨-, rfl, he⟩ := h
      change _ - (1075 : Int) = e at he
      exact ⟨⟨by omega, by omega, .inr (by omega)⟩, by omega⟩

/--
The numbers that are not below zero, with mantissas and exponents in the form in which numbers are
kept, except that an exponent may be too large.
-/
inductive IsNonnegative : UnpackedFloat → Prop
  | zero (s : Sign) : IsNonnegative (.zero s)
  | finite {m : Nat} {e : Int} (hm : 0 < m) (h : Canonical m e) :
    IsNonnegative (.finite .positive m e hm)
  | infinity : IsNonnegative (.infinity .positive)

/--
That the first one of two numbers that are not below zero is not above the second one.
-/
inductive IsBelow : UnpackedFloat → UnpackedFloat → Prop
  | zero (s : Sign) {b : UnpackedFloat} (hb : IsNonnegative b) : IsBelow (.zero s) b
  | finite {m n : Nat} {e f : Int} (hm : 0 < m) (hn : 0 < n) (ha : Canonical m e)
    (hb : Canonical n f) (h : e < f ∨ e = f ∧ m ≤ n) :
    IsBelow (.finite .positive m e hm) (.finite .positive n f hn)
  | infinity {a : UnpackedFloat} (ha : IsNonnegative a) : IsBelow a (.infinity .positive)

section Nonnegative

variable {a b : UnpackedFloat}

theorem IsNonnegative.isNaN_eq (h : IsNonnegative a) : a.isNaN = false := by
  cases h <;> rfl

theorem IsNonnegative.isBelow_self (h : IsNonnegative a) : IsBelow a a := by
  cases h with
  | zero s => exact .zero s (.zero s)
  | finite hm h => exact .finite hm hm h h (.inr ⟨rfl, Nat.le_refl _⟩)
  | infinity => exact .infinity .infinity

theorem IsBelow.left (h : IsBelow a b) : IsNonnegative a := by
  cases h with
  | zero s => exact .zero s
  | finite hm hn ha hb h => exact .finite hm ha
  | infinity ha => exact ha

theorem IsBelow.right (h : IsBelow a b) : IsNonnegative b := by
  cases h with
  | zero s hb => exact hb
  | finite hm hn ha hb h => exact .finite hn hb
  | infinity ha => exact .infinity

theorem IsBelow.rank_le (h : IsBelow a b) : rank a ≤ rank b := by
  cases h with
  | zero s hb => cases hb <;> simp [rank, Prod.Lex.toLex_le_toLex]
  | finite hm hn ha hb h => simpa [rank, Prod.Lex.toLex_le_toLex] using h
  | infinity ha => cases ha <;> simp [rank, Prod.Lex.toLex_le_toLex]

theorem isBelow_of_rank_le (ha : IsNonnegative a) (hb : IsNonnegative b) (h : rank a ≤ rank b) :
    IsBelow a b := by
  cases ha with
  | zero s => exact .zero s hb
  | finite hm ha =>
    cases hb with
    | zero s => simp [rank, Prod.Lex.toLex_le_toLex] at h
    | finite hn hb => exact .finite hm hn ha hb (by simpa [rank, Prod.Lex.toLex_le_toLex] using h)
    | infinity => exact .infinity (.finite hm ha)
  | infinity =>
    cases hb with
    | zero s => simp [rank, Prod.Lex.toLex_le_toLex] at h
    | finite hn hb => simp [rank, Prod.Lex.toLex_le_toLex] at h
    | infinity => exact .infinity .infinity

theorem isNonnegative_of_rank_zero_le {s : Sign} (hnan : a.isNaN = false)
    (h : rank (.zero s) ≤ rank a)
    (hcanonical : ∀ s m e hm, a = .finite s m e hm → Canonical m e) : IsNonnegative a := by
  cases a with
  | notANumber => cases hnan
  | zero s => exact .zero s
  | infinity s =>
    cases s with
    | positive => exact .infinity
    | negative => simp [rank, Prod.Lex.toLex_le_toLex] at h
  | finite s m e hm =>
    cases s with
    | positive => exact .finite hm (hcanonical _ _ _ _ rfl)
    | negative => simp [rank, Prod.Lex.toLex_le_toLex] at h

theorem IsNonnegative.kept (h : IsNonnegative a) : IsNonnegative (kept a) := by
  cases h with
  | zero s =>
    rw [kept_zero]
    exact .zero s
  | @finite m e hm h =>
    by_cases hle : e ≤ 971
    . rw [kept_finite h hle]
      exact .finite hm h
    . rw [kept_overflow (Int.lt_of_not_ge hle)]
      exact .infinity
  | infinity =>
    rw [kept_infinity]
    exact .infinity

/--
Packing keeps the order of numbers that are not below zero.
-/
theorem IsBelow.kept (h : IsBelow a b) : IsBelow (kept a) (kept b) := by
  cases h with
  | zero s hb =>
    rw [kept_zero]
    exact .zero s hb.kept
  | @finite m n e f hm hn ha hb h =>
    by_cases hle : f ≤ 971
    . rw [kept_finite hb hle, kept_finite ha (by omega)]
      exact .finite hm hn ha hb h
    . rw [kept_overflow (Int.lt_of_not_ge hle)]
      exact .infinity (IsNonnegative.finite hm ha).kept
  | infinity ha =>
    rw [kept_infinity]
    exact .infinity ha.kept

end Nonnegative

end Waveplan.Double
