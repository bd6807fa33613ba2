import Waveplan.Proofs.Expression.Identifiers
import Waveplan.Proofs.Expression.Token

/-!
This module contains how an expression may go on before its unit. A unit is split off the end of a
text by its last character and its last word; its last token tells whether the text is complete. The
two agree unless a keyword is not written as a word of its own, or the text ends with a symbol that
means nothing in expressions.
-/

namespace Waveplan

section Words

variable {cs : List Char}

/--
A text is its last word behind something that ends with a blank.
-/
theorem exists_append_lastWord (cs : List Char) :
    ∃ front, cs = front ++ lastWord cs ∧ beforeLastWord cs = Text.trimEnd front
      ∧ ∀ b ∈ front.getLast?, Text.isBlank b := by
  refine ⟨(cs.reverse.dropWhile fun c => !Text.isBlank c).reverse, ?_, rfl, ?_⟩
  . rw [lastWord, ← List.reverse_append, List.takeWhile_append_dropWhile, List.reverse_reverse]
  . intro b hb
    rw [List.getLast?_reverse] at hb
    have h := List.head?_dropWhile_not (fun c => !Text.isBlank c) cs.reverse
    rw [Option.mem_def.mp hb] at h
    simpa using h

theorem exists_tokens_lastWord (cs : List Char) :
    ∃ before, Token.tokens cs = before ++ Token.tokens (lastWord cs) := by
  obtain ⟨front, hcs, _, hblank⟩ := exists_append_lastWord cs
  rcases List.eq_nil_or_concat' front with rfl | ⟨xs, b, rfl⟩
  . exact ⟨[], congrArg Token.tokens hcs⟩
  . have hb := hblank b (by rw [List.getLast?_concat]; rfl)
    obtain ⟨before, hbefore⟩ := Token.exists_tokens_append hb xs (lastWord cs)
    refine ⟨before, ?_⟩
    rw [← hbefore]
    conv_lhs => rw [hcs]
    rw [List.append_assoc, List.singleton_append]

end Words

namespace Token

/--
A token that an operation can be applied to, or the end of one: a number, a name, a boolean or a
closing parenthesis.
-/
def isOperand (t : Token) : Bool :=
  match t.kind with
  | .number | .literal _ | .function | .variable => true
  | .symbol => t.text = [')']
  | _ => false

def isKeyword (t : Token) : Bool :=
  match t.kind with
  | .conjunction | .disjunction | .negation => true
  | _ => false

/--
An operator, an opening parenthesis or a comma.
-/
def isOperator (t : Token) : Bool :=
  match t.kind with
  | .power => true
  | .symbol => t.text.any operatorEndings.contains
  | _ => false

/--
A symbol that means nothing in expressions.
-/
def isForeign (t : Token) : Bool := !(t.isOperand || t.isKeyword || t.isOperator)

def keywords : List (List Char) := ["and".toList, "or".toList, "not".toList]

theorem not_mem_operatorEndings {p : Char → Bool} (hall : operatorEndings.all fun d => !p d)
    {c : Char} (h : p c) : c ∉ operatorEndings := by
  intro hc
  have hc := List.all_eq_true.mp hall c hc
  rw [h] at hc
  contradiction

theorem not_mem_operatorEndings_of_isNumberEnd {c : Char} (h : isNumberEnd c) :
    c ∉ operatorEndings :=
  not_mem_operatorEndings (by decide) h

theorem not_mem_operatorEndings_of_isPart {c : Char} (h : VariableName.isPart c ∨ c = '.') :
    c ∉ operatorEndings := by
  rcases h with h | rfl
  . exact not_mem_operatorEndings (by decide) h
  . decide

theorem isOperator_eq_false_of_wordKind {t : Token} {rest : List Char}
    (h : t.kind = wordKind t.text rest) : t.isOperator = false := by
  unfold wordKind at h
  split_ifs at h <;> simp only [isOperator, h]

theorem isKeyword_iff_of_wordKind {t : Token} {rest : List Char}
    (h : t.kind = wordKind t.text rest) : t.isKeyword ↔ t.text ∈ keywords := by
  unfold wordKind at h
  split_ifs at h <;> simp_all [isKeyword, keywords]

/--
What the kind of a token tells about its text, by the character that it begins with.
-/
theorem next_cases (c : Char) (cs : List Char) :
    (next c cs).1.kind = .number ∧ startsNumber c cs
        ∧ (next c cs).1.text = c :: cs.take (numberLength cs)
      ∨ (next c cs).1.kind = wordKind (next c cs).1.text (next c cs).2 ∧ VariableName.isStart c
        ∧ (next c cs).1.text = c :: cs.take (wordLength cs)
      ∨ (next c cs).1 = ⟨.power, ['*', '*']⟩
      ∨ (next c cs).1 = ⟨.symbol, [c]⟩ := by
  by_cases hnumber : startsNumber c cs
  . simp [next, tailLength, hnumber]
  . by_cases hstart : VariableName.isStart c
    . simp [next, tailLength, hnumber, hstart]
    . by_cases hpower : c = '*' ∧ cs.head? = some '*'
      . obtain ⟨rfl, hhead⟩ := hpower
        obtain ⟨cs, rfl⟩ := List.head?_eq_some_iff.mp hhead
        exact .inr (.inr (.inl (by simp [next, tailLength, hnumber, hstart])))
      . exact .inr (.inr (.inr (by simp [next, tailLength, hnumber, hstart, hpower])))

/--
Operators are told from other tokens by their last character.
-/
theorem isOperator_iff_getLast? (c : Char) (cs : List Char) :
    (next c cs).1.isOperator ↔ ∃ d ∈ (next c cs).1.text.getLast?, d ∈ operatorEndings := by
  rcases next_cases c cs with ⟨hkind, hc, htext⟩ | ⟨hkind, hc, htext⟩ | hnext | hnext
  . have hfirst : isNumberEnd c := by
      simp only [startsNumber, Bool.or_eq_true, Bool.and_eq_true, decide_eq_true_eq] at hc
      rcases hc with hc | ⟨rfl, _⟩
      . simp [isNumberEnd, hc]
      . decide
    have hpiece : IsNumberPiece [c] := isNumberPiece_of_forall (by simpa using hfirst)
    have hend := (hpiece.append (isNumberPiece_number cs)).isNumberEnd
    simp only [isOperator, hkind, Bool.false_eq_true, false_iff, not_exists, not_and]
    intro d hd
    rw [htext] at hd
    exact not_mem_operatorEndings_of_isNumberEnd (hend d hd)
  . simp only [isOperator_eq_false_of_wordKind hkind, Bool.false_eq_true, false_iff, not_exists,
      not_and]
    intro d hd
    rw [htext] at hd
    apply not_mem_operatorEndings_of_isPart
    rcases List.mem_cons.mp (List.mem_of_getLast? hd) with rfl | hd
    . exact .inl (VariableName.isPart_of_isStart hc)
    . exact isPart_of_mem_word hd
  . rw [hnext]
    exact iff_of_true rfl ⟨'*', rfl, by decide⟩
  . rw [hnext]
    simp [isOperator]

theorem isKeyword_next {c : Char} {cs : List Char} (h : (next c cs).1.isKeyword) :
    (next c cs).1.text ∈ keywords := by
  rcases next_cases c cs with ⟨hkind, _⟩ | ⟨hkind, _⟩ | hnext | hnext
  . simp [isKeyword, hkind] at h
  . exact (isKeyword_iff_of_wordKind hkind).mp h
  . simp [isKeyword, hnext] at h
  . simp [isKeyword, hnext] at h

theorem tokens_keyword {word : List Char} (h : word ∈ keywords) :
    ∃ kind, tokens word = [⟨kind, word⟩] ∧ isKeyword ⟨kind, word⟩ := by
  simp only [keywords, List.mem_cons, List.not_mem_nil, or_false] at h
  rcases h with rfl | rfl | rfl
  . exact ⟨.conjunction, by decide +kernel, rfl⟩
  . exact ⟨.disjunction, by decide +kernel, rfl⟩
  . exact ⟨.negation, by decide +kernel, rfl⟩

theorem isKeyword_eq_false_of_isOperand {t : Token} (h : t.isOperand) : t.isKeyword = false := by
  unfold isOperand at h
  unfold isKeyword
  split at h <;> simp_all

theorem isOperator_eq_false_of_isOperand {t : Token} (h : t.isOperand) : t.isOperator = false := by
  unfold isOperand at h
  unfold isOperator
  split at h <;> simp_all
  decide

theorem isOperator_eq_false_of_isKeyword {t : Token} (h : t.isKeyword) : t.isOperator = false := by
  unfold isKeyword at h
  unfold isOperator
  split at h <;> simp_all

end Token

/--
The last token of a text ends it.
-/
theorem exists_next_of_getLast?_tokens {cs : List Char} {t : Token}
    (h : (Token.tokens cs).getLast? = some t) :
    ∃ c rest, t = (Token.next c rest).1 ∧ cs.getLast? = t.text.getLast? := by
  obtain ⟨before, hbefore⟩ := List.getLast?_eq_some_iff.mp h
  obtain ⟨c, rest, ht, _⟩ := Token.exists_next_of_tokens hbefore
  refine ⟨c, rest, ht, ?_⟩
  have hne : t.text ≠ [] := by
    rw [ht]
    exact List.cons_ne_nil _ _
  rw [← Token.flatMap_text_tokens cs, hbefore, List.flatMap_append, List.flatMap_singleton,
    List.getLast?_append_of_ne_nil _ hne]

/--
A text waits for an operand if its last token is an operator, or a keyword that is its last word.
-/
theorem isDangling_iff {cs : List Char} {t : Token} (h : (Token.tokens cs).getLast? = some t) :
    isDangling cs ↔ t.isOperator ∨ t.isKeyword ∧ lastWord cs = t.text := by
  obtain ⟨c, rest, ht, hlast⟩ := exists_next_of_getLast?_tokens h
  have hoperator : cs.getLast?.any operatorEndings.contains ↔ t.isOperator := by
    simp [hlast, ht, Token.isOperator_iff_getLast?, Option.any_eq_true]
  have hkeyword : lastWord cs ∈ Token.keywords ↔ t.isKeyword ∧ lastWord cs = t.text := by
    constructor
    . intro hword
      obtain ⟨kind, htokens, hkind⟩ := Token.tokens_keyword hword
      obtain ⟨before, hbefore⟩ := exists_tokens_lastWord cs
      rw [hbefore, htokens, List.getLast?_concat, Option.some.injEq] at h
      rw [← h]
      exact ⟨hkind, rfl⟩
    . rintro ⟨hkind, hword⟩
      rw [hword, ht]
      rw [ht] at hkind
      exact Token.isKeyword_next hkind
  rw [isDangling, Bool.or_eq_true, hoperator, List.contains_iff_mem]
  exact or_congr_right hkeyword

/--
A last token that a text is taken to be complete after although it is no operand: a keyword that is
written without a blank before it, or a symbol that means nothing.
-/
def Token.IsMistaken (t : Token) (cs : List Char) : Prop :=
  t.isKeyword ∧ lastWord cs ≠ t.text ∨ t.isForeign

theorem not_isDangling_iff {cs : List Char} {t : Token}
    (h : (Token.tokens cs).getLast? = some t) :
    ¬isDangling cs ↔ t.isOperand ∨ t.IsMistaken cs := by
  rw [isDangling_iff h, Token.IsMistaken, Token.isForeign]
  by_cases hoperand : t.isOperand
  . simp [hoperand, Token.isKeyword_eq_false_of_isOperand hoperand,
      Token.isOperator_eq_false_of_isOperand hoperand]
  . by_cases hkeyword : t.isKeyword
    . simp [hoperand, hkeyword, Token.isOperator_eq_false_of_isKeyword hkeyword]
    . simp [hoperand, hkeyword]

theorem Token.not_isOperand_of_isMistaken {t : Token} {cs : List Char} (h : t.IsMistaken cs) :
    ¬t.isOperand := by
  intro hoperand
  rcases h with ⟨hkeyword, _⟩ | hforeign
  . rw [isKeyword_eq_false_of_isOperand hoperand] at hkeyword
    contradiction
  . simp [isForeign, hoperand] at hforeign

theorem PhysicalUnit.eq_or_mem_of_ofSymbol? {symbol : String} {unit : PhysicalUnit}
    (h : ofSymbol? symbol = some unit) :
    symbol ∈ "µs" :: "μs" :: all.map PhysicalUnit.symbol := by
  unfold ofSymbol? at h
  split_ifs at h with hmicro
  . rcases hmicro with rfl | rfl <;> simp
  . have hsymbol : unit.symbol = symbol := by simpa using List.find?_some h
    simp only [List.mem_cons, List.mem_map]
    exact .inr (.inr ⟨unit, List.mem_of_find?_eq_some h, hsymbol⟩)

/--
The symbol of a unit could be the name of a variable as well.
-/
theorem PhysicalUnit.tokens_of_ofSymbol? {symbol : List Char} {unit : PhysicalUnit}
    (h : ofSymbol? (String.ofList symbol) = some unit) :
    Token.tokens symbol = [⟨.variable, symbol⟩] := by
  have hall : ∀ s ∈ "µs" :: "μs" :: all.map PhysicalUnit.symbol,
      Token.tokens s.toList = [⟨.variable, s.toList⟩] := by
    simp only [all, PhysicalUnit.symbol, List.map_cons, List.map_nil]
    decide +kernel
  have htokens := hall _ (eq_or_mem_of_ofSymbol? h)
  rwa [String.toList_ofList] at htokens

namespace Expression

/--
The text of an expression in front of its last word.
-/
def front (e : Expression) : List Char := beforeLastWord (Text.trim e.body.toList)

def lastName (e : Expression) : List Char := lastWord (Text.trim e.body.toList)

def TakesUnit (e : Expression) (unit : PhysicalUnit) : Prop :=
  splitUnit e.body.toList = (e.front, some unit)

/--
How an expression is split that ends with the symbol of a unit: the unit is taken off after an
operand, and after a token that is mistaken for one. The symbol is a variable otherwise.
-/
structure SplitsAfter (e : Expression) (unit : PhysicalUnit) (t : Token) : Prop where
  isLast : (Token.tokens e.front).getLast? = some t
  takesUnit_iff : e.TakesUnit unit ↔ t.isOperand ∨ t.IsMistaken e.front
  agrees_iff : (e.TakesUnit unit ↔ t.isOperand) ↔ ¬t.IsMistaken e.front
  reads : ¬e.TakesUnit unit →
    splitUnit e.body.toList = (Text.trim e.body.toList, none)
      ∧ e.Reads (String.ofList e.lastName)

variable {e : Expression} {unit : PhysicalUnit}

theorem splitUnit_of_ofSymbol? (hu : PhysicalUnit.ofSymbol? (String.ofList e.lastName) = some unit)
    (hfront : e.front ≠ []) :
    splitUnit e.body.toList
      = if isDangling e.front then (Text.trim e.body.toList, none) else (e.front, some unit) := by
  unfold splitUnit
  dsimp only
  rw [show lastWord (Text.trim e.body.toList) = e.lastName from rfl, hu]
  simp only [show beforeLastWord (Text.trim e.body.toList) = e.front from rfl, hfront, false_or]

theorem reads_lastName (hu : PhysicalUnit.ofSymbol? (String.ofList e.lastName) = some unit)
    (hsplit : splitUnit e.body.toList = (Text.trim e.body.toList, none)) :
    e.Reads (String.ofList e.lastName) := by
  obtain ⟨before, hbefore⟩ := exists_tokens_lastWord (Text.trim e.body.toList)
  have hlast : Token.tokens (lastWord (Text.trim e.body.toList)) = [⟨.variable, e.lastName⟩] :=
    PhysicalUnit.tokens_of_ofSymbol? hu
  rw [← mem_readNames_iff, readNames, hsplit, hbefore, hlast]
  simp

theorem exists_getLast?_tokens {cs : List Char} (h : cs ≠ []) :
    ∃ t, (Token.tokens cs).getLast? = some t := by
  rw [← Option.isSome_iff_exists, List.getLast?_isSome]
  intro htokens
  apply h
  rw [← Token.flatMap_text_tokens cs, htokens, List.flatMap_nil]

theorem exists_splitsAfter
    (hu : PhysicalUnit.ofSymbol? (String.ofList e.lastName) = some unit)
    (hfront : e.front ≠ []) : ∃ t, e.SplitsAfter unit t := by
  obtain ⟨t, ht⟩ := exists_getLast?_tokens hfront
  have hsplit := splitUnit_of_ofSymbol? hu hfront
  have htakes : e.TakesUnit unit ↔ t.isOperand ∨ t.IsMistaken e.front := by
    rw [← not_isDangling_iff ht, TakesUnit, hsplit]
    split
    . next h => simp [h]
    . next h => simp [h]
  refine ⟨t, ht, htakes, ?_, ?_⟩
  . rw [htakes, or_iff_left_iff_imp]
    constructor
    . intro h hmistaken
      exact Token.not_isOperand_of_isMistaken hmistaken (h hmistaken)
    . intro h hmistaken
      exact absurd hmistaken h
  . intro hnot
    have hdangling : isDangling e.front := by
      by_contra h
      rw [if_neg h] at hsplit
      exact hnot hsplit
    rw [if_pos hdangling] at hsplit
    exact ⟨hsplit, reads_lastName hu hsplit⟩

section Endings

def doubledFrequency : Expression := ⟨"2 * detuning MHz"⟩

def productWithV : Expression := ⟨"x * V"⟩

theorem exists_splitsAfter_doubledFrequency :
    PhysicalUnit.ofSymbol? (String.ofList doubledFrequency.lastName) = some .megahertz
      ∧ doubledFrequency.front ≠ []
      ∧ doubledFrequency.TakesUnit .megahertz
      ∧ PhysicalUnit.ofSymbol? (String.ofList productWithV.lastName) = some .volt
      ∧ productWithV.front ≠ []
      ∧ productWithV.Reads "V" := by
  have hu : PhysicalUnit.ofSymbol? (String.ofList doubledFrequency.lastName)
      = some .megahertz := by decide
  have hfront : doubledFrequency.front ≠ [] := by decide
  have hu' : PhysicalUnit.ofSymbol? (String.ofList productWithV.lastName) = some .volt := by
    decide
  have hfront' : productWithV.front ≠ [] := by decide
  obtain ⟨t, ht⟩ := exists_splitsAfter hu hfront
  obtain ⟨t', ht'⟩ := exists_splitsAfter hu' hfront'
  have hlast : (Token.tokens doubledFrequency.front).getLast?
      = some ⟨.variable, "detuning".toList⟩ := by decide +kernel
  have hlast' : (Token.tokens productWithV.front).getLast? = some ⟨.symbol, ['*']⟩ := by
    decide +kernel
  obtain rfl := Option.some.inj (hlast.symm.trans ht.isLast)
  obtain rfl := Option.some.inj (hlast'.symm.trans ht'.isLast)
  refine ⟨hu, hfront, ht.takesUnit_iff.mpr (.inl rfl), hu', hfront', ?_⟩
  have hname : String.ofList productWithV.lastName = "V" := by decide
  rw [← hname]
  apply (ht'.reads _).2
  rw [ht'.takesUnit_iff]
  rintro (h | ⟨h, _⟩ | h) <;> exact absurd h (by decide)

def gluedConjunction : Expression := ⟨"(x > 1)and V"⟩

def spacedConjunction : Expression := ⟨"(x > 1) and V"⟩

/--
A keyword right behind a parenthesis does not keep the next word from being a unit, whereas the same
keyword behind a blank does.
-/
theorem takesUnit_gluedConjunction :
    PhysicalUnit.ofSymbol? (String.ofList gluedConjunction.lastName) = some .volt
      ∧ gluedConjunction.front = "(x > 1)and".toList
      ∧ (Token.tokens gluedConjunction.front).getLast? = some ⟨.conjunction, "and".toList⟩
      ∧ gluedConjunction.TakesUnit .volt
      ∧ ¬gluedConjunction.Reads "V"
      ∧ spacedConjunction.Reads "V" := by
  refine ⟨by decide +kernel, by decide +kernel, by decide +kernel, ?_, ?_, ?_⟩
  . unfold TakesUnit
    decide
  . rw [← mem_readNames_iff]
    decide +kernel
  . rw [← mem_readNames_iff]
    decide +kernel

end Endings

end Expression

end Waveplan
