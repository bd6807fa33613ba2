import Mathlib.Data.List.Chain
import Waveplan.Expression.Basic
import Waveplan.Formula.Kernel
import Waveplan.Proofs.Dictionary
import Waveplan.Proofs.Exact
import Waveplan.Proofs.Expression.Token
import Waveplan.Proofs.Outcome

/-!
This module contains which names an expression reads, and which of them are bound when it is
evaluated. Names that share an identifier cannot be told apart: only the last of them is bound, and
the formula uses its value for all of them.
-/

namespace Waveplan

namespace VariableName

theorem isDigit_of_isStart {c : Char} (h : isStart c) : c.isDigit = false := by
  by_contra hd
  have hd := (Bool.not_eq_false _).mp hd
  have hcode := Text.toNat_of_isDigit hd
  have hascii : c.toNat < 128 := by omega
  simp only [isStart, Text.isAlphabetic, if_pos hascii, Bool.or_eq_true, decide_eq_true_eq] at h
  rcases h with h | rfl
  . rw [Text.isDigit_of_isAlpha h] at hd
    contradiction
  . contradiction

/--
The identifier that stands for a name in formulas.
-/
def identifier (name : String) : String := String.ofList (mangle name.toList)

def isJoint (c : Char) : Bool := c = '.' || c = '_'

/--
A name in which points and underscores do not touch each other.
-/
def IsPlain (name : List Char) : Prop :=
  name.IsChain fun c d => (isJoint c && isJoint d) = false

instance (name : List Char) : Decidable (IsPlain name) :=
  inferInstanceAs (Decidable (List.IsChain _ _))

theorem mangle_cons (c : Char) (cs : List Char) :
    mangle (c :: cs) = (if c = '.' then ['_', '_'] else [c]) ++ mangle cs := rfl

theorem mangle_cons_of_ne {c : Char} (h : c ≠ '.') (cs : List Char) :
    mangle (c :: cs) = c :: mangle cs := by
  rw [mangle_cons, if_neg h, List.singleton_append]

/--
What an identifier tells about the first character of a name that has no joints side by side.
-/
theorem exists_cons_of_mangle {cs rest : List Char} (h : mangle cs = '_' :: rest) :
    ∃ d ds, cs = d :: ds ∧ isJoint d := by
  cases cs with
  | nil => contradiction
  | cons d ds =>
    refine ⟨d, ds, rfl, ?_⟩
    by_cases hd : d = '.'
    . simp [isJoint, hd]
    . rw [mangle_cons_of_ne hd] at h
      simp [isJoint, (List.cons.inj h).1]

/--
The identifier of a plain name does not begin with the identifier of a point unless the name does.
-/
theorem ne_point_of_mangle {c : Char} {cs rest : List Char}
    (hc : IsPlain (c :: cs)) (hne : c ≠ '.') :
    mangle (c :: cs) ≠ '_' :: '_' :: rest := by
  rw [mangle_cons_of_ne hne]
  intro h
  obtain ⟨rfl, hrest⟩ := List.cons.inj h
  obtain ⟨d, ds, rfl, hd⟩ := exists_cons_of_mangle hrest
  have hjoint := (List.isChain_cons_cons.mp hc).1
  rw [hd] at hjoint
  contradiction

theorem mangle_injective {m n : List Char} (hm : IsPlain m) (hn : IsPlain n)
    (h : mangle m = mangle n) : m = n := by
  induction m generalizing n with
  | nil =>
    cases n with
    | nil => rfl
    | cons d n =>
      rw [mangle_cons] at h
      split at h <;> contradiction
  | cons c m ih =>
    cases n with
    | nil =>
      rw [mangle_cons] at h
      split at h <;> contradiction
    | cons d n =>
      by_cases hc : c = '.'
      . by_cases hd : d = '.'
        . subst hc hd
          have h : '_' :: '_' :: mangle m = '_' :: '_' :: mangle n := h
          rw [ih (List.IsChain.tail hm) (List.IsChain.tail hn)
            (List.cons.inj (List.cons.inj h).2).2, List.tail_cons]
        . subst hc
          exact absurd h.symm (ne_point_of_mangle hn hd)
      . by_cases hd : d = '.'
        . subst hd
          exact absurd h (ne_point_of_mangle hm hc)
        . rw [mangle_cons_of_ne hc, mangle_cons_of_ne hd] at h
          obtain ⟨rfl, hmn⟩ := List.cons.inj h
          have hn : IsPlain n := List.IsChain.tail hn
          rw [ih (List.IsChain.tail hm) hn hmn]

theorem identifier_injective {m n : String} (hm : IsPlain m.toList) (hn : IsPlain n.toList)
    (h : identifier m = identifier n) : m = n := by
  apply String.toList_inj.mp
  exact mangle_injective hm hn (String.ofList_injective h)

end VariableName

namespace Token

/--
A token that stands for the value of a variable in front of other tokens: an identifier that is no
keyword, no boolean and not called.
-/
structure IsVariableBefore (t : Token) (rest : List Token) : Prop where
  isStart : t.text.head?.any VariableName.isStart = true
  not_keyword : t.text ≠ "and".toList ∧ t.text ≠ "or".toList ∧ t.text ≠ "not".toList
  not_literal : isWord t.text "true" = false ∧ isWord t.text "false" = false
  not_called : ((rest.flatMap text).dropWhile Text.isBlank).head? ≠ some '('

theorem wordKind_eq_variable_iff {text rest : List Char} :
    wordKind text rest = .variable
      ↔ (text ≠ "and".toList ∧ text ≠ "or".toList ∧ text ≠ "not".toList)
        ∧ (isWord text "true" = false ∧ isWord text "false" = false)
        ∧ (rest.dropWhile Text.isBlank).head? ≠ some '(' := by
  unfold wordKind
  split_ifs <;> simp_all

theorem startsNumber_of_isStart {c : Char} (h : VariableName.isStart c) (cs : List Char) :
    startsNumber c cs = false := by
  have hpoint : c ≠ '.' := by
    rintro rfl
    contradiction
  simp [startsNumber, VariableName.isDigit_of_isStart h, hpoint]

theorem kind_next_eq_variable_iff {c : Char} {cs : List Char} {rest : List Token}
    (hrest : rest.flatMap text = (next c cs).2) :
    (next c cs).1.kind = .variable ↔ (next c cs).1.IsVariableBefore rest := by
  have hhead : (next c cs).1.text.head? = some c := rfl
  by_cases hs : VariableName.isStart c
  . have hkind : (next c cs).1.kind = wordKind (next c cs).1.text (next c cs).2 := by
      simp [next, startsNumber_of_isStart hs, hs]
    rw [hkind, wordKind_eq_variable_iff, ← hrest]
    constructor
    . rintro ⟨hkeyword, hliteral, hcall⟩
      exact ⟨by rw [hhead]; exact hs, hkeyword, hliteral, hcall⟩
    . rintro ⟨_, hkeyword, hliteral, hcall⟩
      exact ⟨hkeyword, hliteral, hcall⟩
  . constructor
    . intro hkind
      simp only [next, if_neg hs] at hkind
      split_ifs at hkind
    . intro h
      have := h.isStart
      rw [hhead] at this
      exact absurd this hs

/--
The tokens of a text are read one after the other, so that each is the first one of the text that is
left when it is read.
-/
theorem exists_next_of_tokens {body : List Char} {before after : List Token} {t : Token}
    (h : tokens body = before ++ t :: after) :
    ∃ c cs, t = (next c cs).1 ∧ after.flatMap text = (next c cs).2 := by
  induction before generalizing body with
  | nil =>
    cases body with
    | nil => rw [tokens] at h; contradiction
    | cons c cs =>
      rw [tokens_cons] at h
      obtain ⟨rfl, rfl⟩ := List.cons.inj h
      exact ⟨c, cs, rfl, flatMap_text_tokens _⟩
  | cons u before ih =>
    cases body with
    | nil => rw [tokens] at h; contradiction
    | cons c cs =>
      rw [tokens_cons] at h
      exact ih (List.cons.inj h).2

end Token

namespace Expression

/--
The formula of an expression, without its unit.
-/
def source (e : Expression) : FormulaSource := .ofBody (splitUnit e.body.toList).1

/--
That an expression reads a variable, its unit left aside.
-/
def Reads (e : Expression) (name : String) : Prop :=
  ∃ before t after, Token.tokens (splitUnit e.body.toList).1 = before ++ t :: after
    ∧ t.IsVariableBefore after ∧ t.text = name.toList

/--
The names that an expression reads, in order and as often as it does.
-/
def readNames (e : Expression) : List String :=
  ((Token.tokens (splitUnit e.body.toList).1).filter (·.kind = .variable)).map
    fun t => String.ofList t.text

theorem mem_readNames_iff {e : Expression} {name : String} :
    name ∈ e.readNames ↔ e.Reads name := by
  simp only [readNames, List.mem_map, List.mem_filter, decide_eq_true_eq]
  constructor
  . rintro ⟨t, ⟨ht, hkind⟩, rfl⟩
    obtain ⟨before, after, h⟩ := List.append_of_mem ht
    obtain ⟨c, cs, rfl, hafter⟩ := Token.exists_next_of_tokens h
    exact ⟨before, _, after, h, (Token.kind_next_eq_variable_iff hafter).mp hkind,
      String.toList_ofList.symm⟩
  . rintro ⟨before, t, after, h, hvar, hname⟩
    obtain ⟨c, cs, rfl, hafter⟩ := Token.exists_next_of_tokens h
    refine ⟨_, ⟨?_, (Token.kind_next_eq_variable_iff hafter).mpr hvar⟩, ?_⟩
    . rw [h]
      exact List.mem_append_right _ List.mem_cons_self
    . rw [hname, String.ofList_toList]

theorem identifiers_source (e : Expression) :
    e.source.identifiers
      = .ofList (e.readNames.map fun name => (VariableName.identifier name, name)) := by
  simp [source, FormulaSource.ofBody, readNames, VariableName.identifier, Function.comp_def]

theorem eq_identifier_of_mem {e : Expression} {identifier name : String}
    (h : (identifier, name) ∈ e.source.identifiers.entries) :
    identifier = VariableName.identifier name ∧ e.Reads name := by
  rw [identifiers_source, Dictionary.mem_entries_ofList_iff] at h
  obtain ⟨_, hname, he⟩ := List.mem_map.mp (List.mem_reverse.mp (Dictionary.mem_of_lookup h))
  cases he
  exact ⟨rfl, mem_readNames_iff.mp hname⟩

theorem nodup_identifiers (e : Expression) : e.source.identifiers.names.Nodup := by
  rw [identifiers_source]
  exact Dictionary.nodup_names_ofList _

theorem mem_variableNames_iff_exists {e : Expression} {name : String} :
    name ∈ e.variableNames ↔ ∃ identifier, (identifier, name) ∈ e.source.identifiers.entries := by
  unfold variableNames
  rw [Dictionary.mem_names_ofList_iff]
  constructor
  . rintro ⟨_, h⟩
    obtain ⟨⟨identifier, _⟩, hm, he⟩ := List.mem_map.mp h
    cases he
    exact ⟨identifier, hm⟩
  . rintro ⟨identifier, h⟩
    exact ⟨(), List.mem_map.mpr ⟨_, h, rfl⟩⟩

/--
That the names which an expression reads have identifiers of their own.
-/
def IsUnambiguous (e : Expression) : Prop :=
  ∀ m n, e.Reads m → e.Reads n → VariableName.identifier m = VariableName.identifier n → m = n

theorem mem_identifiers_iff_of_isUnambiguous {e : Expression} (he : e.IsUnambiguous)
    {name : String} :
    (VariableName.identifier name, name) ∈ e.source.identifiers.entries ↔ e.Reads name := by
  constructor
  . intro h
    exact (eq_identifier_of_mem h).2
  . intro h
    have hm : (VariableName.identifier name, name)
        ∈ (e.readNames.map fun name => (VariableName.identifier name, name)).reverse :=
      List.mem_reverse.mpr (List.mem_map.mpr ⟨name, mem_readNames_iff.mpr h, rfl⟩)
    obtain ⟨other, hl⟩ := Dictionary.exists_lookup_of_mem hm
    rw [← Dictionary.mem_entries_ofList_iff, ← identifiers_source] at hl
    obtain ⟨hid, hother⟩ := eq_identifier_of_mem hl
    rw [he name other h hother hid] at hl ⊢
    exact hl

section Compile

variable {α : Type} [Kernel α] {e : Expression} {compiled : CompiledExpression α}

/--
An expression that is ready to be evaluated, if its formula is.
-/
def compiledTo (e : Expression) (formula : Kernel.Evaluation α α) : CompiledExpression α where
  source := e.body
  formula := formula
  identifiers := e.source.identifiers
  isBoolean := e.source.isBoolean
  isBare := e.source.identifiers.names = [String.ofList (Text.trim e.source.text)]
  unit := (splitUnit e.body.toList).2

theorem compile_eq (e : Expression) :
    (e.compile : Except EvaluationError (CompiledExpression α))
      = if Text.trim e.source.text = [] then .error (.parse e.body "empty expression")
        else (Kernel.parse (String.ofList e.source.text)).mapError (.parse e.body) >>=
          fun formula => .ok (e.compiledTo formula) := by
  unfold compile
  dsimp only
  rw [show FormulaSource.ofBody (splitUnit e.body.toList).1 = e.source from rfl]
  congr 1
  cases Kernel.parse (α := α) (String.ofList e.source.text) <;> rfl

theorem compile_eq_ok_iff : e.compile = .ok compiled
    ↔ Text.trim e.source.text ≠ []
      ∧ ∃ formula, Kernel.parse (String.ofList e.source.text) = .ok formula
        ∧ e.compiledTo formula = compiled := by
  rw [compile_eq]
  split
  . next h => simp [h]
  . next h => simp [h, Outcome.bind_eq_ok_iff, Outcome.mapError_eq_ok_iff]

theorem identifiers_of_compile (h : e.compile = .ok compiled) :
    compiled.identifiers = e.source.identifiers := by
  obtain ⟨_, _, _, rfl⟩ := compile_eq_ok_iff.mp h
  rfl

end Compile

end Expression

namespace CompiledExpression

variable {α : Type} [Number α]

/--
What the variables of an expression are bound to.
-/
def bindings (e : CompiledExpression α) (resolve : String → Option (Value α)) :
    Except EvaluationError (Bindings α) :=
  bindAll e.source resolve {} e.identifiers.entries

theorem get?_of_bind {source identifier : String} {value : Value α} {b b' : Bindings α}
    (h : bind source b identifier value = .ok b') (key : String) :
    b'.magnitudes.get? key
      = if key = identifier then some value.baseMagnitude else b.magnitudes.get? key := by
  rw [← Dictionary.get?_insert]
  unfold bind at h
  dsimp only at h
  split at h
  . split at h
    . cases h
      rfl
    . contradiction
  . cases h
    rfl
  . cases h
    rfl

theorem get?_of_bindAll {source : String} {resolve : String → Option (Value α)}
    {entries : List (String × String)} {b b' : Bindings α}
    (h : bindAll source resolve b entries = .ok b') (hn : (entries.map Prod.fst).Nodup) :
    (∀ key, key ∉ entries.map Prod.fst → b'.magnitudes.get? key = b.magnitudes.get? key)
      ∧ ∀ identifier name, (identifier, name) ∈ entries →
        ∃ value, resolve name = some value
          ∧ b'.magnitudes.get? identifier = some value.baseMagnitude := by
  induction entries generalizing b with
  | nil =>
    cases h
    simp
  | cons entry rest ih =>
    obtain ⟨identifier, name⟩ := entry
    rw [List.map_cons, List.nodup_cons] at hn
    rw [bindAll] at h
    split at h
    . contradiction
    . next value hvalue =>
      obtain ⟨next, hnext, h⟩ := Outcome.bind_eq_ok_iff.mp h
      obtain ⟨hother, hrest⟩ := ih h hn.2
      refine ⟨?_, ?_⟩
      . intro key hkey
        rw [List.map_cons, List.mem_cons, not_or] at hkey
        rw [hother key hkey.2, get?_of_bind hnext, if_neg hkey.1]
      . intro i m hm
        rcases List.mem_cons.mp hm with he | hm
        . cases he
          refine ⟨value, hvalue, ?_⟩
          rw [hother identifier hn.1, get?_of_bind hnext, if_pos rfl]
        . exact hrest i m hm

/--
An expression is evaluated with what its variables are bound to.
-/
theorem evaluateAt_eq (e : CompiledExpression α) (resolve : String → Option (Value α)) :
    e.evaluateAt resolve = e.bindings resolve >>= fun b =>
      match e.isBare, b.last with
      | true, some (.bool value) => .ok (.bool value)
      | _, _ =>
        match e.formula.run b.answer with
        | .error reason => .error (.evaluation e.source reason)
        | .ok x =>
          if e.isBoolean then .ok (.bool (Number.isNonzero x))
          else
            match e.unit <|> b.baseUnit with
            | some unit => .ok (.quantity ⟨x, unit⟩)
            | none => .ok (.number x) := rfl

end CompiledExpression

namespace Expression

/--
That the variables of an expression keep their own values: its variables are the names it reads, and
whenever it is evaluated, the formula finds the value of each name under the identifier of the name.
-/
structure KeepsValues (α : Type) [Number α] [Kernel α] (e : Expression) : Prop where
  nodup : e.variableNames.Nodup
  mem_iff (name : String) : name ∈ e.variableNames ↔ e.Reads name
  bound {compiled : CompiledExpression α} {resolve : String → Option (Value α)} {b : Bindings α} :
    e.compile = .ok compiled → compiled.bindings resolve = .ok b → ∀ name, e.Reads name →
      ∃ value, resolve name = some value
        ∧ b.magnitudes.get? (VariableName.identifier name) = some value.baseMagnitude

/--
The variables of an expression keep their own values if no two of them share an identifier, and only
then. Names that are plain never do.
-/
theorem keepsValues_iff (α : Type) [Number α] [Kernel α] (e : Expression) :
    (e.KeepsValues α ↔ e.IsUnambiguous)
      ∧ ((∀ name, e.Reads name → VariableName.IsPlain name.toList) → e.IsUnambiguous) := by
  refine ⟨⟨?_, ?_⟩, ?_⟩
  . intro h m n hm hn he
    obtain ⟨i, hi⟩ := mem_variableNames_iff_exists.mp ((h.mem_iff m).mpr hm)
    obtain ⟨j, hj⟩ := mem_variableNames_iff_exists.mp ((h.mem_iff n).mpr hn)
    have hij : i = j := by rw [(eq_identifier_of_mem hi).1, (eq_identifier_of_mem hj).1, he]
    have hi := (Dictionary.get?_eq_some_iff e.nodup_identifiers).mpr hi
    have hj := (Dictionary.get?_eq_some_iff e.nodup_identifiers).mpr hj
    rw [hij, hj, Option.some.injEq] at hi
    exact hi.symm
  . intro he
    refine ⟨Dictionary.nodup_names_ofList _, ?_, ?_⟩
    . intro name
      rw [mem_variableNames_iff_exists, ← mem_identifiers_iff_of_isUnambiguous he]
      constructor
      . rintro ⟨identifier, h⟩
        rw [← (eq_identifier_of_mem h).1]
        exact h
      . intro h
        exact ⟨_, h⟩
    . intro compiled resolve b hc hb name hname
      rw [CompiledExpression.bindings, identifiers_of_compile hc] at hb
      exact (CompiledExpression.get?_of_bindAll hb e.nodup_identifiers).2 _ _
        ((mem_identifiers_iff_of_isUnambiguous he).mpr hname)
  . intro hplain m n hm hn h
    exact VariableName.identifier_injective (hplain m hm) (hplain n hn) h

section Names

attribute [local instance] Exact.zeroFunctions

def scaledDetuning : Expression := ⟨"2 * mot.detuning_offset - mot.beam.detuning MHz"⟩

theorem keepsValues_scaledDetuning :
    (∀ name, scaledDetuning.Reads name → VariableName.IsPlain name.toList)
      ∧ scaledDetuning.KeepsValues Exact := by
  have hplain : ∀ name, scaledDetuning.Reads name → VariableName.IsPlain name.toList := by
    intro name h
    have hnames : scaledDetuning.readNames = ["mot.detuning_offset", "mot.beam.detuning"] := by
      decide +kernel
    rw [← mem_readNames_iff, hnames] at h
    simp only [List.mem_cons, List.not_mem_nil, or_false] at h
    rcases h with rfl | rfl <;> decide
  obtain ⟨hiff, hunambiguous⟩ := keepsValues_iff Exact scaledDetuning
  exact ⟨hplain, hiff.mpr (hunambiguous hplain)⟩

def pointAndUnderscores : Expression := ⟨"a.b - a__b"⟩

/--
A point and two underscores have the same identifier, so that the difference of two variables which
only they tell apart is zero whatever their values are.
-/
theorem not_keepsValues_pointAndUnderscores :
    VariableName.isValid "a.b".toList ∧ VariableName.isValid "a__b".toList
      ∧ pointAndUnderscores.readNames = ["a.b", "a__b"]
      ∧ pointAndUnderscores.variableNames = ["a__b"]
      ∧ (pointAndUnderscores.evaluate (⟨[("a.b", .number (Number.ofNat 5)),
          ("a__b", .number (Number.ofNat 3))]⟩ : Namespace Exact)).toOption.map
            Value.baseMagnitude = some Number.zero
      ∧ ¬pointAndUnderscores.KeepsValues Exact := by
  have hread : pointAndUnderscores.readNames = ["a.b", "a__b"] := by decide +kernel
  have hvar : pointAndUnderscores.variableNames = ["a__b"] := by decide +kernel
  refine ⟨by decide +kernel, by decide +kernel, hread, hvar, by decide +kernel, ?_⟩
  intro h
  have hmem := (h.mem_iff "a.b").mpr (mem_readNames_iff.mp (by rw [hread]; decide))
  rw [hvar] at hmem
  revert hmem
  decide

end Names

end Expression

end Waveplan
