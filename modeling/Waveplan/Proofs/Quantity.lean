import Waveplan.Expression.Basic
import Waveplan.Proofs.Exact

/-!
This module contains values in units: conversions between units of one dimension are exact for exact
numbers, so that a value is the same whether it is computed in base units or not.
-/

namespace Waveplan

theorem PhysicalUnit.toRat_scale_ne_zero (unit : PhysicalUnit) :
    (unit.scale : Exact).toRat ≠ 0 := by
  rw [scale, Exact.toRat_ofDecimal, Nat.cast_one, one_mul]
  exact zpow_ne_zero _ (by norm_num)

theorem convertMagnitude_eq_ok_iff {x y : Exact} {source target : PhysicalUnit} :
    convertMagnitude x source target = .ok y
      ↔ source.dimension = target.dimension
        ∧ y.toRat = x.toRat * (source.scale : Exact).toRat / (target.scale : Exact).toRat := by
  have hne := target.toRat_scale_ne_zero
  unfold convertMagnitude
  split
  . next h =>
    subst h
    rw [mul_div_cancel_right₀ _ hne, Except.ok.injEq, ← Exact.toRat_inj]
    exact ⟨fun h => ⟨rfl, h.symm⟩, fun h => h.2.symm⟩
  . split
    . next h =>
      rw [Except.ok.injEq, ← Exact.toRat_inj]
      exact ⟨fun he => ⟨h, he.symm⟩, fun he => he.2.symm⟩
    . next h => exact ⟨nofun, fun he => absurd he.1 h⟩

theorem PhysicalUnit.base_eq_of_dimension {u v : PhysicalUnit} (h : u.dimension = v.dimension) :
    u.base = v.base := by
  rw [base, base, h]

/--
The number that converts magnitudes in a unit to another unit of its dimension.
-/
def PhysicalUnit.factor (u v : PhysicalUnit) : Exact := u.scale / v.scale

theorem PhysicalUnit.toRat_factor (u v : PhysicalUnit) :
    (u.factor v).toRat = (u.scale : Exact).toRat / (v.scale : Exact).toRat := rfl

theorem PhysicalUnit.factor_self (u : PhysicalUnit) : (u.factor u).toRat = 1 :=
  div_self u.toRat_scale_ne_zero

/--
A magnitude can be expressed in all units of its dimension, apart by the factor between the units.
-/
theorem agree_convertMagnitude {u v : PhysicalUnit} (h : u.dimension = v.dimension) (x : Exact)
    (source : PhysicalUnit) :
    Outcome.Agree (fun y z => z = y * u.factor v) (convertMagnitude x source u)
      (convertMagnitude x source v) := by
  by_cases hd : source.dimension = u.dimension
  . have hok {w : PhysicalUnit} (hw : source.dimension = w.dimension) :
        convertMagnitude x source w = .ok (x * source.scale / w.scale) :=
      convertMagnitude_eq_ok_iff.mpr ⟨hw, rfl⟩
    rw [hok hd, hok (hd.trans h)]
    apply Outcome.Agree.ok
    apply Exact.toRat_inj.mp
    have := u.toRat_scale_ne_zero
    simp only [Exact.toRat_mul, Exact.toRat_div, PhysicalUnit.toRat_factor]
    field_simp
  . have hne {w : PhysicalUnit} (hw : source.dimension ≠ w.dimension) :
        convertMagnitude x source w = .error (.incompatible source w) := by
      rw [convertMagnitude, if_neg (fun he => hw (by rw [he])), if_neg hw]
    rw [hne hd, hne (h ▸ hd)]
    exact .error

/--
How many of a unit make one of its base unit.
-/
def PhysicalUnit.perBase : Option PhysicalUnit → ℚ
  | none => 1
  | some unit => (unit.base.scale : Exact).toRat / (unit.scale : Exact).toRat

namespace Value

theorem eq_float_of_inUnit {α : Type} [Number α] {value : Value α} {unit : Option PhysicalUnit}
    {s : Scalar α} (hb : ¬value.isBool) (h : value.inUnit unit = .ok s) : s = .float s.toFloat := by
  unfold inUnit at h
  split at h
  . exact absurd rfl hb
  . contradiction
  . cases h
    rfl
  . split at h
    . cases h
      rfl
    . contradiction
  . obtain ⟨converted, _, h⟩ := Outcome.bind_eq_ok_iff.mp h
    cases h
    rfl
  . split at h
    . cases h
      rfl
    . contradiction

theorem exists_inUnit_eq {value : Value Exact} {unit : Option PhysicalUnit} {x : Exact}
    (h : value.inUnit (unit.map PhysicalUnit.base) = .ok (.float x)) :
    ∃ y, value.inUnit unit = .ok (.float y) ∧ y.toRat = x.toRat * PhysicalUnit.perBase unit := by
  cases unit with
  | none => exact ⟨x, h, by rw [PhysicalUnit.perBase, mul_one]⟩
  | some unit =>
    cases value with
    | bool b => simp [inUnit] at h
    | number z =>
      -- decibels are their own base unit, and no other unit takes plain numbers
      have hbase : unit.base = .decibel := by
        by_contra hne
        simp [inUnit, hne] at h
      have hunit : unit = .decibel := by revert hbase; cases unit <;> decide
      subst hunit
      cases h
      exact ⟨x, rfl, by simp [PhysicalUnit.perBase, PhysicalUnit.base, PhysicalUnit.dimension,
        PhysicalUnit.toRat_scale_ne_zero]⟩
    | quantity q =>
      obtain ⟨converted, hc, h⟩ := Outcome.bind_eq_ok_iff.mp h
      cases h
      obtain ⟨w, hw, hc⟩ := Outcome.bind_eq_ok_iff.mp hc
      cases hc
      obtain ⟨hd, hw⟩ := convertMagnitude_eq_ok_iff.mp hw
      rw [PhysicalUnit.dimension_base] at hd
      let y : Exact := q.magnitude * q.unit.scale / unit.scale
      have hy : convertMagnitude q.magnitude q.unit unit = .ok y :=
        convertMagnitude_eq_ok_iff.mpr ⟨hd, rfl⟩
      refine ⟨y, ?_, ?_⟩
      . rw [inUnit, Quantity.convert, hy]
        rfl
      . have := unit.base.toRat_scale_ne_zero
        have := unit.toRat_scale_ne_zero
        change q.magnitude.toRat * (q.unit.scale : Exact).toRat / (unit.scale : Exact).toRat = _
        rw [hw, PhysicalUnit.perBase]
        field_simp

theorem agree_inUnit {u v : PhysicalUnit} (h : u.dimension = v.dimension) (value : Value Exact) :
    Outcome.Agree (fun s t => ∃ y : Exact, s = .float y ∧ t = .float (y * u.factor v))
      (value.inUnit (some u)) (value.inUnit (some v)) := by
  cases value with
  | bool b => exact .error
  | number x =>
    have hdecibel (w : PhysicalUnit) : w = .decibel ↔ w.dimension = .decibel := by
      cases w <;> decide
    by_cases hu : u = .decibel
    . have hv : v = .decibel := (hdecibel v).mpr (h ▸ (hdecibel u).mp hu)
      subst hu hv
      refine .ok ⟨x, rfl, congrArg Scalar.float (Exact.toRat_inj.mp ?_)⟩
      rw [Exact.toRat_mul, PhysicalUnit.factor_self, mul_one]
    . have hv : v ≠ .decibel := fun hv => hu ((hdecibel u).mpr (h ▸ (hdecibel v).mp hv))
      rw [inUnit, inUnit, if_neg hu, if_neg hv]
      exact .error
  | quantity q =>
    have hconvert : Outcome.Agree (fun y z => z.magnitude = y.magnitude * u.factor v)
        (q.convert u) (q.convert v) :=
      (agree_convertMagnitude h q.magnitude q.unit).bind fun _ _ hz => .ok hz
    exact hconvert.bind fun y z hz => .ok ⟨y.magnitude, rfl, congrArg Scalar.float hz⟩

end Value

section Expression

variable {α : Type} [Number α] [Kernel α] {scope : Namespace α}

omit [Kernel α] in
theorem CompiledExpression.evaluateWith_eq (e : CompiledExpression α) (scope : Namespace α)
    (name : String) (value : Value α) :
    e.evaluateWith scope [(name, value)] = e.evaluate (scope.insert name value) := by
  unfold evaluate evaluateWith
  congr 1
  funext key
  rw [Dictionary.get?_insert]
  by_cases h : key = name
  . subst h
    simp [override?]
  . have : (key == name) = false := beq_eq_false_iff_ne.mpr h
    simp [override?, List.lookup_cons, this, h]

theorem Expression.evaluateIn_eq_ok_iff {e : Expression} {unit : Option PhysicalUnit}
    {s : Scalar α} :
    e.evaluateIn scope unit = .ok s
      ↔ ∃ compiled value, e.compile = .ok compiled ∧ compiled.evaluate scope = .ok value
        ∧ value.inUnit unit = .ok s := by
  unfold evaluateIn evaluate
  rw [Outcome.bind_eq_ok_iff]
  constructor
  . rintro ⟨value, hv, h⟩
    obtain ⟨compiled, hc, hv⟩ := Outcome.bind_eq_ok_iff.mp hv
    split at h
    . next s' hs =>
      cases h
      exact ⟨compiled, value, hc, hv, hs⟩
    . cases h
  . rintro ⟨compiled, value, hc, hv, hs⟩
    refine ⟨value, Outcome.bind_eq_ok_iff.mpr ⟨compiled, hc, hv⟩, ?_⟩
    rw [hs]

theorem Expression.exists_evaluateIn_eq [Kernel Exact] {scope : Namespace Exact} {e : Expression}
    {unit : Option PhysicalUnit} {x : Exact}
    (h : e.evaluateIn scope (unit.map PhysicalUnit.base) = .ok (.float x)) :
    ∃ y, e.evaluateIn scope unit = .ok (.float y)
      ∧ y.toRat = x.toRat * PhysicalUnit.perBase unit := by
  obtain ⟨compiled, value, hc, hv, hs⟩ := evaluateIn_eq_ok_iff.mp h
  obtain ⟨y, hy, heq⟩ := Value.exists_inUnit_eq hs
  exact ⟨y, evaluateIn_eq_ok_iff.mpr ⟨compiled, value, hc, hv, hy⟩, heq⟩

theorem Expression.agree_evaluateIn [Kernel Exact] {u v : PhysicalUnit}
    (h : u.dimension = v.dimension) (e : Expression) (scope : Namespace Exact) :
    Outcome.Agree (fun s t => ∃ y : Exact, s = .float y ∧ t = .float (y * u.factor v))
      (e.evaluateIn scope (some u)) (e.evaluateIn scope (some v)) := by
  refine Outcome.Agree.bind_same fun value _ => ?_
  have := Value.agree_inUnit h value
  revert this
  cases value.inUnit (some u) <;> cases value.inUnit (some v)
  . exact fun _ => .error
  . exact nofun
  . exact nofun
  . rintro ⟨h⟩
    exact .ok h

end Expression

end Waveplan
