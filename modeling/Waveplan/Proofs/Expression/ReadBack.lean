import Waveplan.Proofs.Expression.Ending
import Waveplan.Proofs.Expression.Name
import Waveplan.Proofs.Formula.Kernel

/-!
This module contains which variables can be read back by an expression that consists of their name.
The words of expressions are valid names as well, so that a variable can be defined under them, but
they do not read it.
-/

namespace Waveplan

section Blanks

variable {cs : List Char} (h : ∀ c ∈ cs, Text.isBlank c = false)
include h

theorem Text.trim_of_forall : Text.trim cs = cs := by
  have hreverse : ∀ c ∈ cs.reverse, Text.isBlank c = false := fun c hc =>
    h c (List.mem_reverse.mp hc)
  have hdrop {ds : List Char} (hds : ∀ c ∈ ds, Text.isBlank c = false) :
      ds.dropWhile Text.isBlank = ds := by
    cases ds with
    | nil => rfl
    | cons d ds => exact List.dropWhile_cons_of_neg (by simp [hds d List.mem_cons_self])
  rw [Text.trim, Text.trimEnd, hdrop h, hdrop hreverse, List.reverse_reverse]

/--
A text without blanks has no unit at its end.
-/
theorem splitUnit_of_forall : splitUnit cs = (cs, none) := by
  have hword : ∀ c ∈ cs.reverse, !Text.isBlank c := fun c hc => by
    simp [h c (List.mem_reverse.mp hc)]
  have hlast : lastWord cs = cs := by
    rw [lastWord, List.takeWhile_eq_self_iff.mpr hword, List.reverse_reverse]
  have hbefore : beforeLastWord cs = [] := by
    rw [beforeLastWord, List.dropWhile_eq_nil_iff.mpr hword]
    rfl
  unfold splitUnit
  dsimp only
  rw [Text.trim_of_forall h, hlast, hbefore]
  split
  . rw [if_pos (.inl rfl)]
  . rfl

end Blanks

namespace VariableName

/--
The words that do not stand for variables: the logical operators, and the booleans in any case.
-/
def IsReserved (name : List Char) : Prop :=
  name ∈ Token.keywords ∨ Token.isWord name "true" ∨ Token.isWord name "false"

instance (name : List Char) : Decidable (IsReserved name) :=
  inferInstanceAs (Decidable (_ ∨ _ ∨ _))

variable {name : List Char}

theorem wordKind_of_not_isReserved (h : ¬IsReserved name) : Token.wordKind name [] = .variable := by
  simp only [IsReserved, Token.keywords, List.mem_cons, List.not_mem_nil, or_false, not_or,
    Bool.not_eq_true] at h
  exact Token.wordKind_eq_variable_iff.mpr ⟨h.1, h.2, by simp⟩

theorem isBoolean_of_isReserved (h : IsReserved name) (rest : List Char) :
    (⟨Token.wordKind name rest, name⟩ : Token).isBoolean := by
  simp only [IsReserved, Token.keywords, List.mem_cons, List.not_mem_nil, or_false] at h
  unfold Token.wordKind
  split_ifs <;> simp_all [Token.isBoolean]

/--
A valid name is a token of its own.
-/
theorem tokens_of_isValid (h : isValid name) :
    Token.tokens name = [⟨Token.wordKind name [], name⟩] := by
  cases name with
  | nil => contradiction
  | cons c cs =>
    obtain ⟨hc, hcs⟩ := isValid_cons_iff.mp h
    rw [Token.tokens_cons]
    simp [Token.next, Token.tailLength, Token.startsNumber_of_isStart hc, hc, hcs, Token.tokens]

theorem isBlank_of_mem (h : isValid name) : ∀ c ∈ name, Text.isBlank c = false := by
  intro c hc
  rcases isPart_of_mem h hc with hc | rfl
  . exact isBlank_of_isPart hc
  . rfl

end VariableName

deriving instance DecidableEq for Quantity, Value

/--
A value in base units.
-/
def Value.toBase {α : Type} [Number α] : Value α → Value α
  | .quantity q => .quantity q.toBase
  | value => value

namespace FormulaSource

theorem ofBody_of_not_isReserved {name : String} (hvalid : VariableName.isValid name.toList)
    (h : ¬VariableName.IsReserved name.toList) :
    ofBody name.toList = {
      text := VariableName.mangle name.toList
      identifiers := ⟨[(VariableName.identifier name, name)]⟩
      isBoolean := false } := by
  rw [ofBody, VariableName.tokens_of_isValid hvalid, VariableName.wordKind_of_not_isReserved h]
  simp [Token.formula, Token.isBoolean, Dictionary.ofList, Dictionary.insert, Dictionary.insertInto,
    Dictionary.empty, VariableName.identifier]

theorem isBoolean_of_isReserved {name : List Char} (hvalid : VariableName.isValid name)
    (h : VariableName.IsReserved name) : (ofBody name).isBoolean = true := by
  rw [ofBody, VariableName.tokens_of_isValid hvalid]
  simp [VariableName.isBoolean_of_isReserved h]

end FormulaSource

namespace CompiledExpression

variable {α : Type} [Number α] {e : CompiledExpression α} {resolve : String → Option (Value α)}

/--
An expression that reads one variable and does nothing else.
-/
structure IsVariable (e : CompiledExpression α) (identifier name : String) : Prop where
  formula : ∃ next, e.formula = .ask (.variable identifier) next ∧ ∀ x, next (some x) = .value x
  identifiers : e.identifiers.entries = [(identifier, name)]
  isBoolean : e.isBoolean = false
  isBare : e.isBare = true
  unit : e.unit = none

theorem evaluateAt_of_isVariable {identifier name : String} (h : e.IsVariable identifier name)
    {value : Value α} (hvalue : resolve name = some value) :
    e.evaluateAt resolve = .ok value.toBase := by
  have hbind : e.bindings resolve = .ok {
      magnitudes := Dictionary.empty.insert identifier value.baseMagnitude
      baseUnit := value.baseUnit?
      last := some value } := by
    rw [bindings, h.identifiers, bindAll, hvalue]
    cases value <;> rfl
  obtain ⟨next, hformula, hnext⟩ := h.formula
  have hrun (b : Bindings α) (hb : b.magnitudes
      = Dictionary.empty.insert identifier value.baseMagnitude) :
      e.formula.run b.answer = .ok value.baseMagnitude := by
    rw [hformula, Kernel.Evaluation.run, Bindings.answer, hb, Kernel.Question.name,
      Dictionary.get?_insert, if_pos rfl, hnext]
    rfl
  rw [evaluateAt_eq, Outcome.bind_eq_ok_iff]
  refine ⟨_, hbind, ?_⟩
  dsimp only
  rw [h.isBoolean, h.isBare, h.unit, hrun _ rfl]
  cases value <;> rfl

theorem isBool_of_evaluateAt (h : e.isBoolean = true) {value : Value α}
    (hvalue : e.evaluateAt resolve = .ok value) : value.isBool := by
  rw [evaluateAt_eq, h] at hvalue
  obtain ⟨b, _, hvalue⟩ := Outcome.bind_eq_ok_iff.mp hvalue
  split at hvalue
  . cases hvalue
    rfl
  . split at hvalue
    . contradiction
    . cases hvalue
      rfl

end CompiledExpression

namespace Expression

variable {α : Type} [Number α] [Kernel α] {name : String}

theorem splitUnit_of_isValid (h : VariableName.isValid name.toList) :
    splitUnit name.toList = (name.toList, none) :=
  splitUnit_of_forall (VariableName.isBlank_of_mem h)

theorem source_of_isValid (h : VariableName.isValid name.toList) :
    (⟨name⟩ : Expression).source = .ofBody name.toList := by
  rw [source, splitUnit_of_isValid h]

omit [Number α] in
theorem exists_isVariable_of_compile (hvalid : VariableName.isValid name.toList)
    (h : ¬VariableName.IsReserved name.toList)
    (hv : Kernel.ReadsVariable α (VariableName.identifier name)) :
    ∃ compiled : CompiledExpression α, (⟨name⟩ : Expression).compile = .ok compiled
      ∧ compiled.IsVariable (VariableName.identifier name) name := by
  have hsource := (source_of_isValid hvalid).trans
    (FormulaSource.ofBody_of_not_isReserved hvalid h)
  have htrim : Text.trim (VariableName.mangle name.toList) = VariableName.mangle name.toList :=
    Text.trim_of_forall fun _ hc =>
      VariableName.isBlank_of_isPart (VariableName.isPart_of_mem_mangle hvalid hc)
  obtain ⟨next, hparse, hnext⟩ := hv
  refine ⟨_, compile_eq_ok_iff.mpr ⟨?_, _, ?_, rfl⟩, ⟨next, rfl, hnext⟩, ?_, ?_, ?_, ?_⟩
  . rw [hsource, htrim]
    exact VariableName.mangle_ne_nil hvalid
  . rw [hsource]
    exact hparse
  . rw [compiledTo, hsource]
  . rw [compiledTo, hsource]
  . rw [compiledTo, hsource, htrim]
    exact decide_eq_true rfl
  . rw [compiledTo, splitUnit_of_isValid hvalid]

/--
That a variable can be read back: the expression that consists of its name has its value, in base
units, wherever it is defined.
-/
def ReadsBack (α : Type) [Number α] [Kernel α] (name : String) : Prop :=
  ∀ (value : Value α) (scope : Namespace α), scope.get? name = some value →
    (⟨name⟩ : Expression).evaluate scope = .ok value.toBase

theorem readsBack_of_not_isReserved (hvalid : VariableName.isValid name.toList)
    (h : ¬VariableName.IsReserved name.toList)
    (hv : Kernel.ReadsVariable α (VariableName.identifier name)) : ReadsBack α name := by
  intro value scope hvalue
  obtain ⟨compiled, hcompiled, hvariable⟩ := exists_isVariable_of_compile hvalid h hv
  exact Outcome.bind_eq_ok_iff.mpr
    ⟨compiled, hcompiled, CompiledExpression.evaluateAt_of_isVariable hvariable hvalue⟩

/--
A reserved word has a boolean value if it has one at all, so that a number cannot be read under it.
-/
theorem not_readsBack_of_isReserved (hvalid : VariableName.isValid name.toList)
    (h : VariableName.IsReserved name.toList) : ¬ReadsBack α name := by
  intro hread
  have hvalue := hread (.number Number.zero) (Dictionary.empty.insert name (.number Number.zero))
    (by rw [Dictionary.get?_insert, if_pos rfl])
  obtain ⟨compiled, hcompiled, hvalue⟩ := Outcome.bind_eq_ok_iff.mp hvalue
  obtain ⟨_, c, _, rfl⟩ := compile_eq_ok_iff.mp hcompiled
  have hboolean : (compiledTo ⟨name⟩ c).isBoolean = true := by
    rw [compiledTo, source_of_isValid hvalid]
    exact FormulaSource.isBoolean_of_isReserved hvalid h
  exact absurd (CompiledExpression.isBool_of_evaluateAt hboolean hvalue) Bool.false_ne_true

/--
A variable whose name consists of ASCII characters can be read back if its name is no reserved word,
and only then, as long as the kernel takes the identifier of the name for a variable.
-/
theorem readsBack_iff (α : Type) [Number α] [Kernel α] {name : String}
    (hvalid : VariableName.isValid name.toList) (hascii : VariableName.isAscii name.toList)
    (hkernel : VariableName.isAsciiIdentifier (VariableName.identifier name).toList →
      Kernel.ReadsVariable α (VariableName.identifier name)) :
    ReadsBack α name ↔ ¬VariableName.IsReserved name.toList := by
  have hidentifier : VariableName.isAsciiIdentifier (VariableName.identifier name).toList := by
    rw [VariableName.identifier, String.toList_ofList]
    exact VariableName.isAsciiIdentifier_mangle hvalid hascii
  constructor
  . intro hread h
    exact not_readsBack_of_isReserved hvalid h hread
  . intro h
    exact readsBack_of_not_isReserved hvalid h (hkernel hidentifier)

section Names

attribute [local instance] Exact.zeroFunctions

/--
A quantity is read back in its base unit, although points do not occur in formulas.
-/
theorem readsBack_detuning :
    VariableName.isValid "mot.detuning".toList ∧ VariableName.isAscii "mot.detuning".toList
      ∧ Kernel.ReadsVariable Exact (VariableName.identifier "mot.detuning")
      ∧ ∀ detuning : Quantity Exact,
        (⟨"mot.detuning"⟩ : Expression).evaluate ⟨[("mot.detuning", .quantity detuning)]⟩
          = .ok (.quantity detuning.toBase) := by
  have hvalid : VariableName.isValid "mot.detuning".toList := by decide
  have hascii : VariableName.isAscii "mot.detuning".toList := by decide
  have hkernel : Kernel.ReadsVariable Exact (VariableName.identifier "mot.detuning") :=
    Formula.readsVariable_of_parse (by decide +kernel)
  have hread := readsBack_iff Exact hvalid hascii fun _ => hkernel
  refine ⟨hvalid, hascii, hkernel, fun detuning => ?_⟩
  exact hread.mpr (by decide) (.quantity detuning) _ rfl

/--
A variable can be defined under a word for a boolean, which is then read in its place.
-/
theorem not_readsBack_true :
    VariableName.isValid "True".toList ∧ VariableName.isAscii "True".toList
      ∧ Kernel.ReadsVariable Exact (VariableName.identifier "True")
      ∧ (⟨"True"⟩ : Expression).evaluate (⟨[("True", .bool false)]⟩ : Namespace Exact)
        = .ok (.bool true)
      ∧ ¬ReadsBack Exact "True" := by
  have hvalue : (⟨"True"⟩ : Expression).evaluate (⟨[("True", .bool false)]⟩ : Namespace Exact)
      = .ok (.bool true) := by decide +kernel
  refine ⟨by decide, by decide, Formula.readsVariable_of_parse (by decide +kernel), hvalue, ?_⟩
  intro hread
  rw [hread (.bool false) ⟨[("True", .bool false)]⟩ rfl] at hvalue
  cases hvalue

end Names

end Expression

end Waveplan
