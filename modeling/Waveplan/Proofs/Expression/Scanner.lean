import Waveplan.Proofs.Expression.Name

/-!
This module contains how the scanner of expressions goes through a text. Every turn reads at least
one character, so that it comes to the end, and a word is the longest valid name where it stands.
-/

namespace Waveplan

namespace Token

theorem wordLength_cons {c : Char} (h : VariableName.isPart c) (cs : List Char) :
    wordLength (c :: cs) = wordLength cs + 1 := by
  cases cs with
  | nil => simp [wordLength, h]
  | cons d cs => simp [wordLength, h, Nat.add_comm]

theorem numberLength_cons {c : Char} {cs : List Char} (h : startsNumber c cs) :
    numberLength (c :: cs) = numberLength cs + 1 := by
  have hc : c.isDigit || c = '.' := by
    simp only [startsNumber, Bool.or_eq_true, Bool.and_eq_true] at h ⊢
    exact h.imp_right And.left
  have hdigits : ((c :: cs).takeWhile fun c => c.isDigit || c = '.')
      = c :: cs.takeWhile fun c => c.isDigit || c = '.' := List.takeWhile_cons_of_pos hc
  simp only [numberLength, hdigits, List.length_cons, List.drop_succ_cons, Nat.add_right_comm _ 1]

theorem wordLength_le (cs : List Char) : wordLength cs ≤ cs.length := by
  fun_induction wordLength cs with
  | case4 c d cs h ih =>
    rw [List.length_cons]
    omega
  | _ => simp

theorem length_takeWhile_le (p : Char → Bool) (cs : List Char) :
    (cs.takeWhile p).length ≤ cs.length :=
  (List.takeWhile_prefix p).length_le

theorem exponentLength_le (cs : List Char) : exponentLength cs ≤ cs.length := by
  unfold exponentLength
  split
  . next e c cs =>
    have hdigits := length_takeWhile_le Char.isDigit (c :: cs)
    split_ifs
    . rw [List.length_cons]
      omega
    . split
      . next d cs =>
        have hdigits := length_takeWhile_le Char.isDigit (d :: cs)
        split_ifs
        . rw [List.length_cons, List.length_cons]
          omega
        . exact Nat.zero_le _
      . exact Nat.zero_le _
    . exact Nat.zero_le _
    . exact Nat.zero_le _
  . exact Nat.zero_le _

theorem suffixLength_le (cs : List Char) : suffixLength cs ≤ cs.length := by
  unfold suffixLength
  split
  . exact Nat.zero_le _
  . split
    . split
      . split_ifs <;> simp
      . simp
    . exact Nat.zero_le _

/--
Two scans one after the other do not reach over the end of a text.
-/
theorem add_le_length {m : Nat} {cs : List Char} (hm : m ≤ cs.length) {f : List Char → Nat}
    (hf : ∀ ds, f ds ≤ ds.length) : m + f (cs.drop m) ≤ cs.length := by
  have := hf (cs.drop m)
  rw [List.length_drop] at this
  omega

theorem numberLength_le (cs : List Char) : numberLength cs ≤ cs.length :=
  add_le_length (add_le_length (length_takeWhile_le _ cs) exponentLength_le) suffixLength_le

/--
The number of characters that the scanner reads in one turn. Numbers and words are read from their
first character on.
-/
def turnLength : List Char → Nat
  | [] => 0
  | c :: cs =>
    if startsNumber c cs then numberLength (c :: cs)
    else if VariableName.isStart c then wordLength (c :: cs)
    else if c = '*' ∧ cs.head? = some '*' then 2
    else 1

theorem turnLength_cons (c : Char) (cs : List Char) :
    turnLength (c :: cs) = tailLength c cs + 1 := by
  rw [turnLength, tailLength]
  split_ifs with hnumber hstart
  . exact numberLength_cons hnumber
  . exact wordLength_cons (VariableName.isPart_of_isStart hstart) cs
  . rfl
  . rfl

theorem turnLength_pos {cs : List Char} (h : cs ≠ []) : 0 < turnLength cs := by
  obtain ⟨c, cs, rfl⟩ := List.exists_cons_of_ne_nil h
  rw [turnLength_cons]
  exact Nat.succ_pos _

theorem turnLength_le (cs : List Char) : turnLength cs ≤ cs.length := by
  cases cs with
  | nil => exact Nat.le_refl 0
  | cons c cs =>
    rw [turnLength]
    split_ifs with hnumber hstart hpower
    . exact numberLength_le _
    . exact wordLength_le _
    . obtain ⟨cs, rfl⟩ := List.head?_eq_some_iff.mp hpower.2
      simp
    . simp

theorem text_next (c : Char) (cs : List Char) :
    (next c cs).1.text = (c :: cs).take (turnLength (c :: cs)) := by
  rw [turnLength_cons, List.take_succ_cons]
  rfl

theorem rest_next (c : Char) (cs : List Char) :
    (next c cs).2 = (c :: cs).drop (turnLength (c :: cs)) := by
  rw [turnLength_cons, List.drop_succ_cons]
  rfl

/--
That the scanner reads a text to its end, in turns that take the pieces of the text. A turn reads at
least one of the characters that are left, and not more than there are.
-/
inductive IsScanned : List Char → List (List Char) → Prop where
  | done : IsScanned [] []
  | turn {cs : List Char} {pieces : List (List Char)} (pos : 0 < turnLength cs)
      (le : turnLength cs ≤ cs.length) (rest : IsScanned (cs.drop (turnLength cs)) pieces) :
      IsScanned cs (cs.take (turnLength cs) :: pieces)

theorem isScanned_tokens (cs : List Char) : IsScanned cs ((tokens cs).map text) := by
  fun_induction tokens cs with
  | case1 => exact .done
  | case2 c cs _ ih =>
    rw [List.map_cons, text_next]
    exact .turn (turnLength_pos (List.cons_ne_nil c cs)) (turnLength_le _) (rest_next c cs ▸ ih)

end Token

namespace VariableName

/--
A word that has been read to its end is read in the same way in front of other characters.
-/
theorem wordLength_append {cs : List Char} (h : Token.wordLength cs = cs.length)
    (rest : List Char) :
    Token.wordLength (cs ++ rest) = cs.length + Token.wordLength rest := by
  fun_induction Token.wordLength cs with
  | case1 => simp
  | case2 c hc => rw [List.singleton_append, Token.wordLength_cons hc, Nat.add_comm, h]
  | case3 => contradiction
  | case4 c d cs hc ih =>
    rw [List.length_cons, Nat.add_comm, Nat.add_right_cancel_iff] at h
    rw [List.cons_append, List.cons_append, Token.wordLength, if_pos hc, ← List.cons_append, ih h]
    simp only [List.length_cons]
    omega
  | case5 => contradiction

theorem isTail_take_wordLength (cs : List Char) :
    isTail (cs.take (Token.wordLength cs)) := by
  fun_induction Token.wordLength cs with
  | case1 => rfl
  | case2 c hc => simp [isTail, segments, ne_point_of_isPart hc, hc]
  | case3 => rfl
  | case4 c d cs h ih =>
    rw [Nat.add_comm, List.take_succ_cons, isTail_cons]
    rcases (Bool.or_eq_true _ _).mp h with hc | hc
    . rw [if_neg (ne_point_of_isPart hc), hc, ih, Bool.true_and]
    . obtain ⟨hc, hd⟩ := (Bool.and_eq_true _ _).mp hc
      have hpart := isPart_of_isStart hd
      -- The identifier behind the point begins with `d`, which is therefore in the word.
      rw [Token.wordLength_cons hpart, List.take_succ_cons] at ih ⊢
      rw [isTail_cons, if_neg (ne_point_of_isPart hpart), Bool.and_eq_true] at ih
      rw [if_pos (of_decide_eq_true hc), isValid_cons, hd, ih.2, Bool.true_and]
  | case5 => rfl

/--
That a name is the longest valid name at the beginning of a text.
-/
structure IsLongest (name text : List Char) : Prop where
  isValid : isValid name
  prefixed : name <+: text
  length_le {other : List Char} : VariableName.isValid other → other <+: text →
    other.length ≤ name.length

theorem isLongest_word {c : Char} (hc : isStart c) (cs : List Char) :
    IsLongest (c :: cs.take (Token.wordLength cs)) (c :: cs) := by
  refine ⟨?_, ?_, ?_⟩
  . rw [isValid_cons, hc, isTail_take_wordLength, Bool.true_and]
  . exact List.cons_prefix_cons.mpr ⟨rfl, List.take_prefix _ _⟩
  . intro other hother hprefix
    cases other with
    | nil => contradiction
    | cons d ds =>
      obtain ⟨_, rest, rfl⟩ := List.cons_prefix_cons.mp hprefix
      have hle : ds.length ≤ Token.wordLength (ds ++ rest) := by
        rw [wordLength_append (isValid_cons_iff.mp hother).2]
        exact Nat.le_add_right _ _
      rw [List.length_cons, List.length_cons, List.length_take_of_le (Token.wordLength_le _)]
      exact Nat.succ_le_succ hle

end VariableName

namespace Expression

/--
That the variables of an expression have valid names, which could not be longer where they stand.
-/
structure ReadsValidNames (e : Expression) : Prop where
  isValid {name : String} : name ∈ e.variableNames → VariableName.isValid name.toList
  isLongest {before after : List Token} {t : Token} :
    Token.tokens (splitUnit e.body.toList).1 = before ++ t :: after → t.IsVariableBefore after →
      VariableName.IsLongest t.text (t.text ++ after.flatMap Token.text)

theorem isLongest_of_isVariableBefore {body : List Char} {before after : List Token} {t : Token}
    (h : Token.tokens body = before ++ t :: after) (ht : t.IsVariableBefore after) :
    VariableName.IsLongest t.text (t.text ++ after.flatMap Token.text) := by
  obtain ⟨c, cs, rfl, hafter⟩ := Token.exists_next_of_tokens h
  have hc : VariableName.isStart c := ht.isStart
  have htext : (Token.next c cs).1.text = c :: cs.take (Token.wordLength cs) := by
    simp [Token.next, Token.tailLength, Token.startsNumber_of_isStart hc, hc]
  rw [hafter, Token.text_next_append, htext]
  exact VariableName.isLongest_word hc cs

/--
The scanner gets on by at least one character in every turn and comes to the end of every text. The
words that an expression reads as variables are valid names.
-/
theorem readsValidNames (e : Expression) :
    (∀ text : List Char, Token.IsScanned text ((Token.tokens text).map Token.text))
      ∧ e.ReadsValidNames := by
  refine ⟨Token.isScanned_tokens, ?_, isLongest_of_isVariableBefore⟩
  intro name hname
  obtain ⟨_, hentry⟩ := mem_variableNames_iff_exists.mp hname
  obtain ⟨before, t, after, htokens, ht, htext⟩ := (eq_identifier_of_mem hentry).2
  rw [← htext]
  exact (isLongest_of_isVariableBefore htokens ht).isValid

def gluedNames : Expression := ⟨"1e3λ.x2.5**mot..dé MHz"⟩

theorem readsValidNames_gluedNames :
    Token.IsScanned gluedNames.body.toList
        (["1e3", "λ.x2", ".5", "**", "mot", ".", ".", "dé", " ", "MHz"].map String.toList)
      ∧ gluedNames.variableNames = ["dé", "mot", "λ.x2"]
      ∧ (∀ name ∈ ["dé", "mot", "λ.x2"], VariableName.isValid name.toList)
      ∧ VariableName.IsLongest "mot".toList "mot..dé".toList := by
  obtain ⟨hscanned, hnames⟩ := readsValidNames gluedNames
  have hvariables : gluedNames.variableNames = ["dé", "mot", "λ.x2"] := by decide +kernel
  have hpieces : (Token.tokens gluedNames.body.toList).map Token.text
      = ["1e3", "λ.x2", ".5", "**", "mot", ".", ".", "dé", " ", "MHz"].map String.toList := by
    decide +kernel
  have htokens : Token.tokens (splitUnit gluedNames.body.toList).1
      = [⟨.number, "1e3".toList⟩, ⟨.variable, "λ.x2".toList⟩, ⟨.number, ".5".toList⟩,
          ⟨.power, "**".toList⟩]
        ++ ⟨.variable, "mot".toList⟩ :: [⟨.symbol, ".".toList⟩, ⟨.symbol, ".".toList⟩,
          ⟨.variable, "dé".toList⟩] := by
    decide +kernel
  refine ⟨hpieces ▸ hscanned _, hvariables, ?_, ?_⟩
  . rw [← hvariables]
    exact fun _ => hnames.isValid
  . exact hnames.isLongest htokens ⟨by decide, by decide, by decide, by decide⟩

end Expression

end Waveplan
