import Waveplan.Proofs.Expression.Scope
import Waveplan.Proofs.Formula.Kernel

/-!
This module contains what becomes of calls of functions that the kernel does not know. It asks for
their values like for those of variables. A call fails unless the expression reads a variable whose
identifier is the name of the function, and has the value of that variable otherwise.
-/

namespace Waveplan

namespace Expression

variable {α : Type} [Number α] [Kernel α] {e : Expression} {compiled : CompiledExpression α}

/--
The identifier of a name that is read is bound to the value of a name that is read.
-/
theorem exists_get?_bindings (h : e.compile = .ok compiled) {resolve : String → Option (Value α)}
    {b : Bindings α} (hb : compiled.bindings resolve = .ok b) {name : String}
    (hname : e.Reads name) :
    ∃ other value, e.Reads other
      ∧ VariableName.identifier other = VariableName.identifier name
      ∧ resolve other = some value
      ∧ b.magnitudes.get? (VariableName.identifier name) = some value.baseMagnitude := by
  rw [CompiledExpression.bindings, identifiers_of_compile h] at hb
  have hmem : VariableName.identifier name ∈ e.source.identifiers.names := by
    rw [identifiers_source, Dictionary.mem_names_ofList_iff]
    exact ⟨name, List.mem_map.mpr ⟨name, mem_readNames_iff.mpr hname, rfl⟩⟩
  obtain ⟨⟨identifier, other⟩, hentry, hfirst⟩ := List.mem_map.mp hmem
  obtain rfl : identifier = VariableName.identifier name := hfirst
  obtain ⟨value, hvalue, hget⟩ :=
    (CompiledExpression.get?_of_bindAll hb e.nodup_identifiers).2 _ other hentry
  obtain ⟨hidentifier, hother⟩ := eq_identifier_of_mem hentry
  exact ⟨other, value, hother, hidentifier.symm, hvalue, hget⟩

theorem get?_bindings_eq_none (h : e.compile = .ok compiled) {resolve : String → Option (Value α)}
    {b : Bindings α} (hb : compiled.bindings resolve = .ok b) {key : String}
    (hkey : ∀ name, e.Reads name → VariableName.identifier name ≠ key) :
    b.magnitudes.get? key = none := by
  rw [CompiledExpression.bindings, identifiers_of_compile h] at hb
  apply (CompiledExpression.get?_of_bindAll hb e.nodup_identifiers).1
  intro hmem
  obtain ⟨⟨identifier, other⟩, hentry, rfl⟩ := List.mem_map.mp hmem
  obtain ⟨hidentifier, hreads⟩ := eq_identifier_of_mem hentry
  exact hkey other hreads hidentifier.symm

end Expression

namespace CompiledExpression

variable {α : Type} [Number α] {e : CompiledExpression α}

/--
That the evaluation of an expression comes to a call of a function, after the value of which it goes
on with `next`: the expression is not just a boolean variable, and its formula comes to the call.
-/
def ReachesCall (e : CompiledExpression α) (b : Bindings α) (f : String) (arguments : List α)
    (next : Option α → Kernel.Evaluation α α) : Prop :=
  ¬(e.isBare ∧ ∃ value, b.last = some (.bool value))
    ∧ (.call f arguments, next) ∈ e.formula.questions b.answer

theorem evaluateAt_eq_error_iff {resolve : String → Option (Value α)} {b : Bindings α}
    (hb : e.bindings resolve = .ok b)
    (hbare : ¬(e.isBare ∧ ∃ value, b.last = some (.bool value))) (reason : Kernel.Error) :
    e.evaluateAt resolve = .error (.evaluation e.source reason)
      ↔ e.formula.run b.answer = .error reason := by
  rw [evaluateAt_eq, hb]
  simp only [Bind.bind, Except.bind]
  split
  . next value hisBare hlast => exact absurd ⟨hisBare, value, hlast⟩ hbare
  . cases e.formula.run b.answer with
    | error reason' => simp
    | ok x =>
      dsimp only
      split
      . simp
      . split <;> simp

end CompiledExpression

namespace Expression

variable {α : Type} [Number α] [Kernel α] {e : Expression} {compiled : CompiledExpression α}

/--
An expression that comes to a call fails because the function is not defined, provided that it
reads no variable with the identifier of the function. The call has the value of such a variable
otherwise.
-/
theorem failsAtCall_iff (hkernel : Kernel.NamesUndefined α) (hc : e.compile = .ok compiled)
    {scope : Namespace α} {overrides : List (String × Value α)} {b : Bindings α}
    (hb : compiled.bindings (resolve? scope overrides) = .ok b) {f : String} {arguments : List α}
    {next : Option α → Kernel.Evaluation α α} (h : compiled.ReachesCall b f arguments next) :
    (compiled.evaluateWith scope overrides = .error (.evaluation e.body (.undefined f))
      ↔ ∀ name, e.Reads name → VariableName.identifier name ≠ f)
    ∧ ∀ name, e.Reads name → VariableName.identifier name = f →
      ∃ other value, e.Reads other ∧ VariableName.identifier other = f
        ∧ resolve? scope overrides other = some value
        ∧ compiled.formula.run b.answer = (next (some value.baseMagnitude)).run b.answer := by
  obtain ⟨hbare, hcall⟩ := h
  obtain ⟨_, formula, hparse, rfl⟩ := compile_eq_ok_iff.mp hc
  have hnames := hkernel _ _ hparse
  have hrun := Kernel.Evaluation.run_of_mem_questions hcall
  refine ⟨?_, ?_⟩
  . have heval : (e.compiledTo formula).evaluateWith scope overrides
        = (e.compiledTo formula).evaluateAt (resolve? scope overrides) := rfl
    rw [heval, show e.body = (e.compiledTo formula).source from rfl,
      CompiledExpression.evaluateAt_eq_error_iff hb hbare]
    constructor
    . rintro hundefined name hname rfl
      obtain ⟨_, hnone⟩ := hnames.answer_eq_none hundefined
      obtain ⟨_, _, _, _, _, hget⟩ := exists_get?_bindings hc hb hname
      rw [Bindings.answer, hget] at hnone
      cases hnone
    . intro hf
      have hnone : b.answer f arguments = none := get?_bindings_eq_none hc hb hf
      rw [hrun, Kernel.Question.name, Kernel.Question.arguments, hnone, hnames.next_none hcall]
      rfl
  . rintro name hname rfl
    obtain ⟨other, value, hother, hidentifier, hvalue, hget⟩ := exists_get?_bindings hc hb hname
    refine ⟨other, value, hother, hidentifier, hvalue, ?_⟩
    have hsome : b.answer (VariableName.identifier name) arguments = some value.baseMagnitude :=
      hget
    rw [hrun, Kernel.Question.name, Kernel.Question.arguments, hsome]

section Calls

attribute [local instance] Exact.zeroFunctions

/--
The questions that are asked in the evaluation of an expression whose variables are no booleans.
-/
def questionsIn (e : Expression) (scope : Namespace Exact) : List (Kernel.Question Exact) :=
  match (e.compile : Except EvaluationError (CompiledExpression Exact)) with
  | .error _ => []
  | .ok compiled =>
    match compiled.bindings (resolve? scope []) with
    | .error _ => []
    | .ok b =>
      if b.last.any Value.isBool then []
      else (compiled.formula.questions b.answer).map Prod.fst

theorem exists_reachesCall {e : Expression} {scope : Namespace Exact} {f : String}
    {arguments : List Exact} (h : .call f arguments ∈ e.questionsIn scope) :
    ∃ (compiled : CompiledExpression Exact) (b : Bindings Exact)
      (next : Option Exact → Kernel.Evaluation Exact Exact),
      e.compile = .ok compiled ∧ compiled.bindings (resolve? scope []) = .ok b
        ∧ compiled.ReachesCall b f arguments next := by
  unfold questionsIn at h
  split at h
  . exact absurd h List.not_mem_nil
  . next compiled hc =>
    split at h
    . exact absurd h List.not_mem_nil
    . next b hb =>
      split at h
      . exact absurd h List.not_mem_nil
      . next hbool =>
        obtain ⟨⟨_, next⟩, hmem, rfl⟩ := List.mem_map.mp h
        refine ⟨compiled, b, next, hc, hb, ?_, hmem⟩
        rintro ⟨_, value, hlast⟩
        exact hbool (by rw [hlast]; rfl)

def unknownFunction : Expression := ⟨"x + f(2 * x)"⟩

def unknownScope : Namespace Exact := ⟨[("x", .number (Number.ofNat 3))]⟩

theorem failsAtCall_unknownFunction : ∃ (compiled : CompiledExpression Exact) (b : Bindings Exact)
    (next : Option Exact → Kernel.Evaluation Exact Exact),
    Kernel.NamesUndefined Exact ∧ unknownFunction.compile = .ok compiled
      ∧ compiled.bindings (resolve? unknownScope []) = .ok b
      ∧ compiled.ReachesCall b "f" [Number.ofNat 6] next
      ∧ compiled.evaluateWith unknownScope []
        = .error (.evaluation unknownFunction.body (.undefined "f")) := by
  have hasked : .call "f" [Number.ofNat 6] ∈ unknownFunction.questionsIn unknownScope := by
    decide +kernel
  obtain ⟨compiled, b, next, hc, hb, hcall⟩ := exists_reachesCall hasked
  have hnames : unknownFunction.readNames = ["x", "x"] := by decide +kernel
  have hkernel : Kernel.NamesUndefined Exact := Formula.namesUndefined_kernel
  refine ⟨compiled, b, next, hkernel, hc, hb, hcall, (failsAtCall_iff hkernel hc hb hcall).1.mpr ?_⟩
  intro name hname
  rw [← mem_readNames_iff, hnames] at hname
  obtain rfl : name = "x" := by simpa using hname
  decide

def functionAndVariable : Expression := ⟨"f(1) + f"⟩

def variableScope : Namespace Exact := ⟨[("f", .number (Number.ofNat 3))]⟩

/--
The call of a function that is not defined has the value of the variable of the same name.
-/
theorem evaluateWith_functionAndVariable : ∃ (compiled : CompiledExpression Exact)
    (b : Bindings Exact) (next : Option Exact → Kernel.Evaluation Exact Exact),
    functionAndVariable.compile = .ok compiled
      ∧ compiled.bindings (resolve? variableScope []) = .ok b
      ∧ compiled.ReachesCall b "f" [Number.one] next
      ∧ (compiled.evaluateWith variableScope []).toOption.map Value.baseMagnitude
        = some (Number.ofNat 6) := by
  have hasked : .call "f" [Number.one] ∈ functionAndVariable.questionsIn variableScope := by
    decide +kernel
  obtain ⟨compiled, b, next, hc, hb, hcall⟩ := exists_reachesCall hasked
  have hvalue : (functionAndVariable.evaluate variableScope).toOption.map Value.baseMagnitude
      = some (Number.ofNat 6) := by decide +kernel
  rw [evaluate, hc] at hvalue
  exact ⟨compiled, b, next, hc, hb, hcall, hvalue⟩

end Calls

end Expression

end Waveplan
