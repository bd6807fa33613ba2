import Waveplan.Formula.Value

/-!
This module contains formulas that are ready to be evaluated: trees of operations in the order in
which they are carried out.
-/

namespace Waveplan.Formula

open Kernel (Evaluation)

mutual

inductive Node (α : Type) where
  | const (x : α)
  | variable (name : String)
  | neg (x : Node α)
  | inv (x : Node α)
  | not (x : Node α)
  | add (x y : Node α)
  | mul (x y : Node α)
  | mod (x y : Node α)
  | pow (x y : Node α)
  | compare (c : Comparison) (x y : Node α)
  /-- `y` if `x` is zero, otherwise `x`. -/
  | or (x y : Node α)
  /-- `x` if it is zero, otherwise `y`. -/
  | and (x y : Node α)
  | elementary (f : Elementary) (x : Node α)
  | log (base x : Node α)
  | round (modulus x : Node α)
  | extremum (which : Extremum) (x y : Node α)
  /-- A function that is not built in. -/
  | call (name : String) (arguments : Nodes α)
  /-- Show something, and give its last value. -/
  | print (items : Items α)
  deriving Repr

inductive Nodes (α : Type) where
  | nil
  | cons (x : Node α) (rest : Nodes α)
  deriving Repr

end

variable {α : Type} [Analysis α]

mutual

def Node.evaluation : Node α → Evaluation α α
  | .const x => .value x
  | .variable name => request (.variable name)
  | .neg x => (fun v => -v) <$> x.evaluation
  | .inv x => (fun v => Number.one / v) <$> x.evaluation
  | .not x => (fun v => Number.ofBool (close v Number.zero)) <$> x.evaluation
  | .add x y => do
    let v ← x.evaluation
    let w ← y.evaluation
    .value (v + w)
  | .mul x y => do
    let v ← x.evaluation
    let w ← y.evaluation
    .value (v * w)
  | .mod x y => do
    let v ← x.evaluation
    let w ← y.evaluation
    .value (Analysis.remainder v w)
  | .pow x y => do
    let v ← x.evaluation
    let w ← y.evaluation
    .value (Analysis.power v w)
  | .compare c x y => do
    let v ← x.evaluation
    let w ← y.evaluation
    .value (Number.ofBool (c.holds v w))
  | .or x y => do
    let v ← x.evaluation
    if apart v Number.zero then .value v else y.evaluation
  | .and x y => do
    let v ← x.evaluation
    if close v Number.zero then .value v else y.evaluation
  | .elementary f x => Analysis.elementary f <$> x.evaluation
  | .log base x => do
    let b ← base.evaluation
    let v ← x.evaluation
    .value (logarithm b v)
  | .round modulus x => do
    let m ← modulus.evaluation
    let v ← x.evaluation
    .value (roundTo m v)
  | .extremum which x y => do
    let v ← x.evaluation
    let w ← y.evaluation
    .value (which.choose v w)
  | .call name arguments => do
    let xs ← arguments.evaluation
    request (.call name xs)
  | .print items => items.value

def Nodes.evaluation : Nodes α → Evaluation α (List α)
  | .nil => .value []
  | .cons x rest => do
    let v ← x.evaluation
    let vs ← rest.evaluation
    .value (v :: vs)

end

end Waveplan.Formula
