import Waveplan.Expression.Kernel
import Waveplan.Quantity

/-!
This module contains the reasons why an expression has no value.
-/

namespace Waveplan

inductive EvaluationError where
  | invalidVariableName (name : String)
  | parse (expression message : String)
  | undefinedVariable (expression name : String)
  /-- The quantities in an expression have different base units. -/
  | mixedUnits (expression : String) (left right : PhysicalUnit)
  | evaluation (expression : String) (reason : Kernel.Error)
  | unit (error : UnitError)
  deriving DecidableEq, Repr

def EvaluationError.message : EvaluationError → String
  | .invalidVariableName name => s!"invalid variable name '{name}'"
  | .parse expression message => s!"could not parse <{expression}>: " ++ message
  | .undefinedVariable expression name =>
    s!"variable '{name}' used in <{expression}> is not defined"
  | .mixedUnits expression left right =>
    s!"<{expression}> mixes quantities in " ++ left.symbol ++ " and " ++ right.symbol
  | .evaluation expression reason => s!"could not evaluate <{expression}>: " ++ reason.message
  | .unit error => error.message

end Waveplan
