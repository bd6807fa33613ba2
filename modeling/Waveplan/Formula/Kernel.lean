import Waveplan.Formula.Parse
import Waveplan.Formula.Reduce

/-!
This module contains the kernel that formulas make: they are read, reduced and then evaluated.
-/

namespace Waveplan.Formula

instance {α : Type} [Analysis α] : Kernel α where
  parse text :=
    match parse text with
    | .error reason => .error reason.message
    | .ok chain => .ok chain.node.evaluation

end Waveplan.Formula
