import Waveplan.Text.Quoted

/-!
This module contains what expressions need of a kernel, which reads formulas and evaluates them.

A kernel does not know the variables of a shot. While it evaluates a formula it asks for their
values, and in the same way for the values of functions that it does not know. What it makes of the
answers is not said here: everything that is built on expressions works with any kernel.
-/

namespace Waveplan

namespace Kernel

/--
What a kernel has to know in order to go on with an evaluation.
-/
inductive Question (α : Type) where
  | variable (name : String)
  | call (name : String) (arguments : List α)
  deriving DecidableEq, Repr

namespace Question

variable {α : Type}

def name : Question α → String
  | .variable name => name
  | .call name _ => name

def arguments : Question α → List α
  | .variable _ => []
  | .call _ arguments => arguments

end Question

/--
Why a formula has no value.
-/
inductive Error where
  /-- A variable or a function that is called is not known. -/
  | undefined (name : String)
  | other (message : String)
  deriving DecidableEq, Repr

def Error.message : Error → String
  | .undefined name => "Undefined(" ++ Text.quoted name ++ ")"
  | .other message => message

/--
The evaluation of a formula over numbers `α`: its result, or a question and how to go on with the
answer, which may be missing.
-/
inductive Evaluation (α β : Type) where
  | value (result : β)
  | error (reason : Error)
  | ask (question : Question α) (next : Option α → Evaluation α β)

namespace Evaluation

variable {α β γ : Type}

def bind : Evaluation α β → (β → Evaluation α γ) → Evaluation α γ
  | value x, f => f x
  | error reason, _ => error reason
  | ask question next, f => ask question fun answer => (next answer).bind f

instance : Monad (Evaluation α) where
  pure := value
  bind := bind

/--
The result if questions are answered by a function of their names and arguments.
-/
def run (answer : String → List α → Option α) : Evaluation α β → Except Error β
  | value x => .ok x
  | error reason => .error reason
  | ask question next => (next (answer question.name question.arguments)).run answer

end Evaluation

end Kernel

/--
A kernel that evaluates formulas over numbers `α`.
-/
class Kernel (α : Type) where
  /-- The evaluation of the formula that a text is, or the reason why it is none. -/
  parse : String → Except String (Kernel.Evaluation α α)

end Waveplan
