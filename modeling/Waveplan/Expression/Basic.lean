import Waveplan.Dictionary
import Waveplan.Expression.Error
import Waveplan.Expression.Token

/-!
This module contains expressions over the variables of a shot, such as `2 * mot.detuning + 1 MHz`.

An expression is a formula with names, booleans, and one unit at its end. Quantities take part with
their magnitudes in base units; without a unit at the end, the value has the base unit of the
quantities that were read.
-/

namespace Waveplan

structure Expression where
  body : String
  deriving DecidableEq, Repr

/--
The values of variables, by name.
-/
abbrev Namespace (α : Type) := Dictionary (Value α)

/--
The characters that an expression cannot be followed by its unit after.
-/
def operatorEndings : List Char :=
  ['+', '-', '*', '/', '^', '%', '(', ',', '<', '>', '=', '!', '&', '|']

def lastWord (cs : List Char) : List Char :=
  (cs.reverse.takeWhile fun c => !Text.isBlank c).reverse

/--
The text before the last word, without blanks at its end.
-/
def beforeLastWord (cs : List Char) : List Char :=
  Text.trimEnd (cs.reverse.dropWhile fun c => !Text.isBlank c).reverse

/--
Whether a text still waits for an operand: it ends with an operator or one of its words.
-/
def isDangling (cs : List Char) : Bool :=
  cs.getLast?.any operatorEndings.contains
    || ["and".toList, "or".toList, "not".toList].contains (lastWord cs)

/--
Split the unit off the end of a text. A unit stands after a blank and a complete formula.
-/
def splitUnit (body : List Char) : List Char × Option PhysicalUnit :=
  let trimmed := Text.trim body
  let rest := beforeLastWord trimmed
  match PhysicalUnit.ofSymbol? (String.ofList (lastWord trimmed)) with
  | some unit =>
    if rest = [] ∨ isDangling rest then (trimmed, none) else (rest, some unit)
  | none => (trimmed, none)

/--
What an expression says to the kernel.
-/
structure FormulaSource where
  text : List Char
  /-- The names of the variables, by the identifiers that stand for them in the formula. -/
  identifiers : Dictionary String
  isBoolean : Bool

def FormulaSource.ofBody (body : List Char) : FormulaSource :=
  let tokens := Token.tokens body
  let names := (tokens.filter (·.kind = .variable)).map Token.text
  { text := tokens.flatMap Token.formula
    identifiers := .ofList (names.map fun name =>
      (String.ofList (VariableName.mangle name), String.ofList name))
    isBoolean := tokens.any Token.isBoolean }

/--
An expression that is ready to be evaluated many times.
-/
structure CompiledExpression (α : Type) where
  source : String
  formula : Kernel.Evaluation α α
  identifiers : Dictionary String
  isBoolean : Bool
  /-- The expression is a variable and nothing else. -/
  isBare : Bool
  unit : Option PhysicalUnit

namespace Expression

/--
The names of the variables that an expression reads, in ascending order. Functions are no variables.
-/
def variableNames (e : Expression) : List String :=
  let (body, _) := splitUnit e.body.toList
  (Dictionary.ofList ((FormulaSource.ofBody body).identifiers.entries.map fun (_, name) =>
    (name, ()))).names

def isTimeDependent (e : Expression) : Bool := e.variableNames.contains VariableName.time

variable {α : Type} [Kernel α]

def compile (e : Expression) : Except EvaluationError (CompiledExpression α) :=
  let (body, unit) := splitUnit e.body.toList
  let t := FormulaSource.ofBody body
  let text := String.ofList t.text
  if Text.trim t.text = [] then
    .error (.parse e.body "empty expression")
  else
    match Kernel.parse text with
    | .error message => .error (.parse e.body message)
    | .ok formula =>
      .ok {
        source := e.body
        formula := formula
        identifiers := t.identifiers
        isBoolean := t.isBoolean
        isBare := t.identifiers.names = [String.ofList (Text.trim t.text)]
        unit := unit }

end Expression

structure Bindings (α : Type) where
  magnitudes : Dictionary α := .empty
  /-- The base unit of the quantities among the values. -/
  baseUnit : Option PhysicalUnit := none
  /-- The value that was bound last. -/
  last : Option (Value α) := none

/--
What the kernel is answered: the magnitude under a name, whatever the name is called with.
-/
def Bindings.answer {α : Type} (b : Bindings α) (name : String) (_arguments : List α) : Option α :=
  b.magnitudes.get? name

/--
The first value of a list that stands under a name.
-/
def override? {α : Type} (overrides : List (String × Value α)) (name : String) :
    Option (Value α) := overrides.lookup name

namespace CompiledExpression

variable {α : Type} [Number α]

/--
Bind one more variable. All quantities of an expression must have one base unit.
-/
def bind (source : String) (b : Bindings α) (identifier : String) (value : Value α) :
    Except EvaluationError (Bindings α) :=
  let next (baseUnit : Option PhysicalUnit) : Bindings α :=
    ⟨b.magnitudes.insert identifier value.baseMagnitude, baseUnit, some value⟩
  match value.baseUnit?, b.baseUnit with
  | some unit, some known =>
    if known = unit then .ok (next (some unit)) else .error (.mixedUnits source known unit)
  | some unit, none => .ok (next (some unit))
  | none, baseUnit => .ok (next baseUnit)

/--
Bind variables in the order of their identifiers.
-/
def bindAll (source : String) (resolve : String → Option (Value α)) :
    Bindings α → List (String × String) → Except EvaluationError (Bindings α)
  | b, [] => .ok b
  | b, (identifier, name) :: rest =>
    match resolve name with
    | none => .error (.undefinedVariable source name)
    | some value => do
      let b ← bind source b identifier value
      bindAll source resolve b rest

def evaluateAt (e : CompiledExpression α) (resolve : String → Option (Value α)) :
    Except EvaluationError (Value α) := do
  let b ← bindAll e.source resolve {} e.identifiers.entries
  match e.isBare, b.last with
  | true, some (.bool value) => .ok (.bool value)
  | _, _ =>
    match e.formula.run b.answer with
    | .error reason => .error (.evaluation e.source reason)
    | .ok x =>
      if e.isBoolean then .ok (.bool (Number.isNonzero x))
      else
        match e.unit <|> b.baseUnit with
        | some unit => .ok (.quantity ⟨x, unit⟩)
        | none => .ok (.number x)

def evaluateWith (e : CompiledExpression α) (scope : Namespace α)
    (overrides : List (String × Value α)) : Except EvaluationError (Value α) :=
  e.evaluateAt fun name => override? overrides name <|> scope.get? name

def evaluate (e : CompiledExpression α) (scope : Namespace α) :
    Except EvaluationError (Value α) := e.evaluateWith scope []

/--
A compiled expression as it is shown when a shot is examined.
-/
def describe (e : CompiledExpression α) : String :=
  "CompiledExpression \x7b source: " ++ Text.quoted e.source ++ ", boolean: "
    ++ toString e.isBoolean ++ ", unit: " ++ PhysicalUnit.describe? e.unit ++ " \x7d"

end CompiledExpression

namespace Expression

variable {α : Type} [Number α] [Kernel α]

def evaluate (e : Expression) (scope : Namespace α) : Except EvaluationError (Value α) := do
  let compiled ← e.compile
  compiled.evaluate scope

def evaluateIn (e : Expression) (scope : Namespace α) (unit : Option PhysicalUnit) :
    Except EvaluationError (Scalar α) := do
  let value ← e.evaluate scope
  match value.inUnit unit with
  | .ok scalar => .ok scalar
  | .error error => .error (.unit error)

end Expression

end Waveplan
