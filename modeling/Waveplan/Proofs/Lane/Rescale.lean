import Waveplan.Lane.Analog
import Waveplan.Proofs.Instruction.Rescale
import Waveplan.Proofs.Quantity

/-!
This module contains analog lanes in two units of one dimension: they fail together, and otherwise
their waveforms are apart by the factor between the units. Ramps are drawn in base units, and only
their ends are converted.
-/

namespace Waveplan.AnalogLane

open Instruction Outcome

namespace Context

variable {u v : PhysicalUnit}

def withUnit (c : Context Exact) (unit : PhysicalUnit) : Context Exact := { c with unit := unit }

theorem agree_fromBase (h : u.dimension = v.dimension) (c : Context Exact) (start : Nat)
    (x : Exact) :
    Agree (fun y z => z = y * u.factor v) ((c.withUnit u).fromBase start x)
      ((c.withUnit v).fromBase start x) := by
  change Agree _ ((convertMagnitude x u.base u).mapError _)
    ((convertMagnitude x v.base v).mapError _)
  rw [PhysicalUnit.base_eq_of_dimension h]
  exact (agree_convertMagnitude h x v.base).mapError _ _

theorem agree_lineAt (h : u.dimension = v.dimension) (c : Context Exact) (start : Nat)
    (t₀ t₁ v₀ v₁ : Exact) (tick : Nat) :
    Agree (fun y z => z = y * u.factor v) ((c.withUnit u).lineAt start t₀ t₁ v₀ v₁ tick)
      ((c.withUnit v).lineAt start t₀ t₁ v₀ v₁ tick) :=
  Agree.bind_same fun _ _ => agree_fromBase h c start _

theorem agree_magnitude (h : u.dimension = v.dimension) (c : Context Exact) (start : Nat)
    (value : Value Exact) :
    Agree (fun y z => z = y * u.factor v) ((c.withUnit u).magnitude (some u) start value)
      ((c.withUnit v).magnitude (some v) start value) := by
  unfold magnitude
  split
  . exact .error
  . have hunit := Value.agree_inUnit h value
    generalize value.inUnit (some u) = s, value.inUnit (some v) = t at hunit
    cases hunit with
    | ok hst =>
      obtain ⟨y, rfl, rfl⟩ := hst
      exact .ok rfl
    | error => exact .error

variable [Kernel Exact]

theorem agree_expression (h : u.dimension = v.dimension) (c : Context Exact) (start stop : Nat)
    (e : Expression) :
    Agree (Rescaled (u.factor v)) ((c.withUnit u).expression start stop e)
      ((c.withUnit v).expression start stop e) := by
  refine Agree.bind_same (x := c.compileExpression start e) fun compiled _ => ?_
  split
  . refine Agree.bind_same (x := c.timeStep.tickTimes (c.times.bound start)
      (c.times.bound stop)) fun times _ => ?_
    have hvalues : Agree (List.Forall₂ fun y z => z = y * u.factor v)
        (times.mapM fun time => do
          let value ← c.valueAt start compiled time
          (c.withUnit u).magnitude (some u) start value)
        (times.mapM fun time => do
          let value ← c.valueAt start compiled time
          (c.withUnit v).magnitude (some v) start value) :=
      Agree.mapM fun time _ => Agree.bind_same fun value _ => agree_magnitude h c start value
    refine hvalues.bind fun ys zs hzs => ?_
    have hzs : zs = ys.map (· * u.factor v) := by
      rw [← List.forall₂_eq_eq_eq, List.forall₂_map_right_iff]
      exact hzs.flip.imp fun _ _ h => h
    rw [hzs]
    exact .ok (rescaled_ofFloats _ ys)
  . refine Agree.bind_same fun value _ => ?_
    refine (agree_magnitude h c start value).bind fun y z hz => ?_
    rw [hz]
    exact .ok (rescaled_hold _ y _)

theorem agree_ramp (h : u.dimension = v.dimension) (c : Context Exact)
    (previousStart start stop : Nat) (previous next : Expression) :
    Agree (Rescaled (u.factor v)) ((c.withUnit u).ramp previousStart start stop previous next)
      ((c.withUnit v).ramp previousStart start stop previous next) := by
  have hbase : (c.withUnit u).unit.map PhysicalUnit.base
      = (c.withUnit v).unit.map PhysicalUnit.base :=
    congrArg some (PhysicalUnit.base_eq_of_dimension h)
  unfold ramp
  rw [hbase]
  refine Agree.bind_same fun v₀ _ => Agree.bind_same fun v₁ _ => ?_
  refine Agree.ite Iff.rfl (.ok (rescaled_empty _)) ?_
  refine (agree_lineAt h c start _ _ _ _ _).bind fun x₀ y₀ h₀ => ?_
  refine (agree_lineAt h c start _ _ _ _ _).bind fun x₁ y₁ h₁ => ?_
  rw [h₀, h₁]
  exact .ok (rescaled_linear _ x₀ x₁ _)

theorem agree_blocks (h : u.dimension = v.dimension) (c : Context Exact)
    (previous : Option (AnalogValue × Nat)) (values : List (AnalogValue × Nat × Nat)) :
    Agree (List.Forall₂ (Rescaled (u.factor v))) ((c.withUnit u).blocks previous values)
      ((c.withUnit v).blocks previous values) := by
  induction values generalizing previous with
  | nil => exact .ok .nil
  | cons value rest ih =>
    obtain ⟨value, start, stop⟩ := value
    have hrest {x y : Instruction Exact} (hxy : Rescaled (u.factor v) x y) :
        Agree (List.Forall₂ (Rescaled (u.factor v)))
          (do let xs ← (c.withUnit u).blocks (some (value, start)) rest; .ok (x :: xs))
          (do let ys ← (c.withUnit v).blocks (some (value, start)) rest; .ok (y :: ys)) :=
      (ih (some (value, start))).bind fun xs ys hs => .ok (.cons hxy hs)
    unfold blocks
    cases value with
    | expression e =>
      exact (agree_expression h c start stop e).bind fun x y hxy => hrest hxy
    | ramp =>
      dsimp only
      split
      . exact (agree_ramp h c _ start stop _ _).bind fun x y hxy => hrest hxy
      . exact .error

end Context

theorem agree_joinBlocks {k : Exact} {xs ys : List (Instruction Exact)}
    (h : List.Forall₂ (Rescaled k) xs ys) :
    Agree (Rescaled k) (joinBlocks .float xs) (joinBlocks .float ys) := by
  cases h with
  | nil => exact .ok (rescaled_empty k)
  | cons hx h => exact (agree_play (.cons hx h)).mapError _ _

/--
A lane is rescaled when its unit is changed to another one of the same dimension.
-/
theorem agree_compile [Kernel Exact] {u v : PhysicalUnit} (h : u.dimension = v.dimension)
    (lane : String) (blocks : List (Block AnalogValue)) (times : StepTimes Exact)
    (scope : Namespace Exact) (step : TimeStep) :
    Agree (Rescaled (u.factor v)) (compile lane blocks times (some u) scope step)
      (compile lane blocks times (some v) scope step) := by
  refine Agree.bind_same fun _ _ => ?_
  refine (Context.agree_blocks h ⟨lane, times, scope, none, step⟩ none _).bind fun xs ys hs => ?_
  exact agree_joinBlocks hs

end Waveplan.AnalogLane
