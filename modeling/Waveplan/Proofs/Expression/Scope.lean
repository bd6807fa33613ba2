import Waveplan.Formula.Kernel
import Waveplan.Lane.Analog
import Waveplan.Proofs.Expression.Identifiers

/-!
This module contains that an expression sees nothing but its variables: namespaces and overrides
that give them the same values are the same to it. An expression that does not read the time is
therefore the same at all times.
-/

namespace Waveplan

namespace CompiledExpression

variable {α : Type} [Number α] [Kernel α]

omit [Kernel α] in
theorem bindAll_congr {source : String} {resolve resolve' : String → Option (Value α)}
    {entries : List (String × String)} {b : Bindings α}
    (h : ∀ identifier name, (identifier, name) ∈ entries → resolve name = resolve' name) :
    bindAll source resolve b entries = bindAll source resolve' b entries := by
  induction entries generalizing b with
  | nil => rfl
  | cons entry rest ih =>
    obtain ⟨identifier, name⟩ := entry
    rw [bindAll, bindAll, h identifier name List.mem_cons_self]
    cases resolve' name with
    | none => rfl
    | some value =>
      dsimp only
      congr 1
      funext b
      exact ih fun identifier name hm => h identifier name (List.mem_cons_of_mem _ hm)

omit [Kernel α] in
theorem evaluateAt_congr {e : CompiledExpression α} {resolve resolve' : String → Option (Value α)}
    (h : ∀ identifier name, (identifier, name) ∈ e.identifiers.entries →
      resolve name = resolve' name) : e.evaluateAt resolve = e.evaluateAt resolve' := by
  rw [evaluateAt_eq, evaluateAt_eq, bindings, bindings, bindAll_congr h]

end CompiledExpression

namespace Expression

section Resolve

variable {α : Type}

/--
The value of a variable: an override if there is one, and otherwise the value in the namespace.
-/
def resolve? (scope : Namespace α) (overrides : List (String × Value α)) (name : String) :
    Option (Value α) :=
  override? overrides name <|> scope.get? name

theorem resolve?_cons_of_ne {scope : Namespace α} {overrides : List (String × Value α)}
    {key name : String} (value : Value α) (h : name ≠ key) :
    resolve? scope ((key, value) :: overrides) name = resolve? scope overrides name := by
  unfold resolve? override?
  rw [Dictionary.lookup_cons, if_neg h]

end Resolve

variable {α : Type} [Number α] [Kernel α] {e : Expression} {compiled : CompiledExpression α}

theorem evaluateWith_congr (h : e.compile = .ok compiled) {scope scope' : Namespace α}
    {overrides overrides' : List (String × Value α)}
    (hs : ∀ name ∈ e.variableNames,
      resolve? scope overrides name = resolve? scope' overrides' name) :
    compiled.evaluateWith scope overrides = compiled.evaluateWith scope' overrides' := by
  apply CompiledExpression.evaluateAt_congr
  intro identifier name hm
  rw [identifiers_of_compile h] at hm
  exact hs name (mem_variableNames_iff_exists.mpr ⟨identifier, hm⟩)

theorem ne_time_of_mem (ht : e.isTimeDependent = false) {name : String}
    (hm : name ∈ e.variableNames) : name ≠ VariableName.time := by
  rintro rfl
  unfold isTimeDependent at ht
  rw [List.contains_iff_mem.mpr hm] at ht
  contradiction

/--
An expression has the same value, or fails in the same way, wherever its variables have the same
values or are undefined. If it does not read the time, then the time can be left out, and the value
in a lane is the same at all times.
-/
theorem seesOnlyVariables (h : e.compile = .ok compiled) :
    (∀ (scope scope' : Namespace α) (overrides overrides' : List (String × Value α)),
      (∀ name ∈ e.variableNames,
        resolve? scope overrides name = resolve? scope' overrides' name) →
      compiled.evaluateWith scope overrides = compiled.evaluateWith scope' overrides')
    ∧ (e.isTimeDependent = false →
      (∀ (scope : Namespace α) (overrides : List (String × Value α)) (value : Value α),
        compiled.evaluateWith scope ((VariableName.time, value) :: overrides)
          = compiled.evaluateWith scope overrides)
      ∧ ∀ (c : AnalogLane.Context α) (start : Nat) (time : α),
        c.valueAt start compiled time
          = (compiled.evaluate c.scope).mapError fun error =>
            .evaluation c.lane (c.times.name start) error) := by
  have htime (ht : e.isTimeDependent = false) (scope : Namespace α)
      (overrides : List (String × Value α)) (value : Value α) :
      compiled.evaluateWith scope ((VariableName.time, value) :: overrides)
        = compiled.evaluateWith scope overrides :=
    evaluateWith_congr h fun _ hm => resolve?_cons_of_ne value (ne_time_of_mem ht hm)
  refine ⟨fun _ _ _ _ hs => evaluateWith_congr h hs, fun ht => ⟨htime ht, ?_⟩⟩
  intro c start time
  rw [AnalogLane.Context.valueAt, htime ht]
  rfl

section Scopes

attribute [local instance] Exact.zeroFunctions

def detunedFrequency : Expression := ⟨"mot.detuning * 2 + 1 MHz"⟩

theorem seesOnlyVariables_detunedFrequency : ∃ compiled : CompiledExpression Exact,
    detunedFrequency.compile = .ok compiled ∧ detunedFrequency.isTimeDependent = false
      ∧ ∀ detuning other time : Value Exact,
        compiled.evaluateWith ⟨[("b", other), ("mot.detuning", detuning)]⟩ []
            = compiled.evaluateWith ⟨[("mot.detuning", other)]⟩
              [("a", other), ("mot.detuning", detuning)]
          ∧ compiled.evaluateWith ⟨[("mot.detuning", detuning)]⟩ [(VariableName.time, time)]
            = compiled.evaluateWith ⟨[("mot.detuning", detuning)]⟩ [] := by
  obtain ⟨compiled, h⟩ := Outcome.exists_eq_ok_of_isOk
    (x := (detunedFrequency.compile : Except _ (CompiledExpression Exact))) (by decide +kernel)
  have ht : detunedFrequency.isTimeDependent = false := by decide +kernel
  have hnames : detunedFrequency.variableNames = ["mot.detuning"] := by decide +kernel
  obtain ⟨hscope, htime⟩ := seesOnlyVariables h
  refine ⟨compiled, h, ht, fun detuning other time => ⟨hscope _ _ _ _ ?_, (htime ht).1 _ _ _⟩⟩
  intro name hm
  rw [hnames, List.mem_singleton] at hm
  subst hm
  rfl

end Scopes

end Expression

end Waveplan
