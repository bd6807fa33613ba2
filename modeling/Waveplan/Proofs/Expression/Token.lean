import Mathlib.Data.List.TakeWhile
import Waveplan.Expression.Token
import Waveplan.Quantity

/-!
This module contains which characters stand inside of tokens. No token goes on over a blank, so that
the tokens behind a blank are those of the text behind it.
-/

namespace Waveplan

namespace Text

theorem isBlank_of_isGraphic {c : Char} (h : 33 ≤ c.toNat) (h' : c.toNat < 128) :
    isBlank c = false := by
  simp only [isBlank, Bool.or_eq_false_iff, Bool.and_eq_false_iff, decide_eq_false_iff_not]
  omega

theorem toNat_of_isDigit {c : Char} (h : c.isDigit) : 48 ≤ c.toNat ∧ c.toNat ≤ 57 := by
  simpa [Char.isDigit, UInt32.le_iff_toNat_le] using h

theorem isDigit_of_isAlpha {c : Char} (h : c.isAlpha) : c.isDigit = false := by
  have hcode : 65 ≤ c.toNat := by
    rcases (Bool.or_eq_true _ _).mp h with hupper | hlower
    . exact UInt32.le_iff_toNat_le.mp (of_decide_eq_true hupper).1
    . have hle := of_decide_eq_true ((Bool.and_eq_true _ _).mp hlower).1
      have hle : 97 ≤ c.toNat := UInt32.le_iff_toNat_le.mp hle
      omega
  by_contra hd
  have := toNat_of_isDigit ((Bool.not_eq_false _).mp hd)
  omega

theorem isBlank_of_isDigit {c : Char} (h : c.isDigit) : isBlank c = false := by
  have := toNat_of_isDigit h
  exact isBlank_of_isGraphic (by omega) (by omega)

/--
The code points of blanks.
-/
def blankCodes : List Nat :=
  [9, 10, 11, 12, 13, 32, 0x85, 0xA0, 0x1680, 0x2000, 0x2001, 0x2002, 0x2003, 0x2004, 0x2005,
    0x2006, 0x2007, 0x2008, 0x2009, 0x200A, 0x2028, 0x2029, 0x202F, 0x205F, 0x3000]

theorem mem_blankCodes {c : Char} (h : isBlank c) : c.toNat ∈ blankCodes := by
  simp only [isBlank, Bool.or_eq_true, Bool.and_eq_true, decide_eq_true_eq] at h
  simp only [blankCodes, List.mem_cons, List.not_mem_nil, or_false]
  omega

theorem inRanges_eq_any (table : Array (Nat × Nat)) (code : Nat) :
    inRanges table code = table.toList.any fun (low, high) => low ≤ code && code ≤ high :=
  (Array.any_toList ..).symm

end Text

namespace VariableName

theorem isPart_of_isBlank {c : Char} (h : Text.isBlank c) : isPart c = false := by
  have hcodes : ∀ n ∈ Text.blankCodes, isPart (Char.ofNat n) = false := by
    -- Lists are much faster to search for the kernel than arrays are.
    simp only [isPart, Text.isAlphanumeric, Text.isAlphabetic, Text.isNumeric, Text.inRanges_eq_any]
    decide +kernel
  have := hcodes _ (Text.mem_blankCodes h)
  rwa [Char.ofNat_toNat] at this

theorem isBlank_of_isPart {c : Char} (h : isPart c) : Text.isBlank c = false := by
  by_contra hb
  rw [isPart_of_isBlank ((Bool.not_eq_false _).mp hb)] at h
  contradiction

end VariableName

namespace Token

/--
A character that can stand inside of a number.
-/
def isNumberPart (c : Char) : Bool :=
  c.isDigit || ['.', 'e', 'E', '+', '-'].contains c || isSuffix c

/--
A character that a number can end with.
-/
def isNumberEnd (c : Char) : Bool := c.isDigit || c = '.' || isSuffix c

theorem isBlank_of_isNumberPart {c : Char} (h : isNumberPart c) : Text.isBlank c = false := by
  simp only [isNumberPart, isSuffix, Bool.or_eq_true, List.contains_iff_mem, List.mem_cons,
    List.not_mem_nil, or_false] at h
  rcases h with (h | h) | h
  . exact Text.isBlank_of_isDigit h
  . rcases h with rfl | rfl | rfl | rfl | rfl <;> decide
  . rcases h with rfl | rfl | rfl | rfl | rfl | rfl | rfl | rfl | rfl <;> decide

theorem isNumberPart_of_isNumberEnd {c : Char} (h : isNumberEnd c) : isNumberPart c := by
  simp only [isNumberEnd, isNumberPart, Bool.or_eq_true, decide_eq_true_eq] at h ⊢
  rcases h with (h | rfl) | h
  . exact .inl (.inl h)
  . exact .inl (.inr rfl)
  . exact .inr h

/--
A part of a number: characters of numbers, the last one of which can end a number.
-/
structure IsNumberPiece (cs : List Char) : Prop where
  isNumberPart : ∀ c ∈ cs, isNumberPart c
  isNumberEnd : ∀ c ∈ cs.getLast?, isNumberEnd c

theorem isNumberPiece_of_forall {cs : List Char} (h : ∀ c ∈ cs, isNumberEnd c) :
    IsNumberPiece cs :=
  ⟨fun c hc => isNumberPart_of_isNumberEnd (h c hc), fun c hc => h c (List.mem_of_getLast? hc)⟩

theorem isNumberPiece_nil : IsNumberPiece [] :=
  isNumberPiece_of_forall (by simp)

theorem IsNumberPiece.append {xs ys : List Char} (hx : IsNumberPiece xs) (hy : IsNumberPiece ys) :
    IsNumberPiece (xs ++ ys) := by
  constructor
  . intro c hc
    rcases List.mem_append.mp hc with hc | hc
    . exact hx.isNumberPart c hc
    . exact hy.isNumberPart c hc
  . intro c hc
    rw [List.getLast?_append] at hc
    rcases Option.or_eq_some_iff.mp hc with hc | ⟨_, hc⟩
    . exact hy.isNumberEnd c hc
    . exact hx.isNumberEnd c hc

theorem isNumberPiece_digits (cs : List Char) : IsNumberPiece (cs.takeWhile Char.isDigit) := by
  apply isNumberPiece_of_forall
  intro c hc
  simp [isNumberEnd, List.mem_takeWhile_imp hc]

/--
Characters of numbers in front of a part of one.
-/
theorem IsNumberPiece.cons {c : Char} {cs : List Char} (hc : Token.isNumberPart c)
    (hne : cs ≠ []) (h : IsNumberPiece cs) : IsNumberPiece (c :: cs) := by
  constructor
  . exact List.forall_mem_cons.mpr ⟨hc, h.isNumberPart⟩
  . intro d hd
    rw [List.getLast?_cons_of_ne_nil hne] at hd
    exact h.isNumberEnd d hd

theorem take_length_takeWhile {β : Type} (p : β → Bool) (xs : List β) :
    xs.take (xs.takeWhile p).length = xs.takeWhile p :=
  (List.prefix_iff_eq_take.mp (List.takeWhile_prefix p)).symm

theorem isNumberPiece_exponent (cs : List Char) :
    IsNumberPiece (cs.take (exponentLength cs)) := by
  unfold exponentLength
  split
  . next e c cs =>
    split
    . next he =>
      have he : isNumberPart e := by rcases he with rfl | rfl <;> decide
      split
      . next hc =>
        rw [Nat.add_comm, List.take_succ_cons, take_length_takeWhile]
        apply IsNumberPiece.cons he _ (isNumberPiece_digits _)
        rw [List.takeWhile_cons_of_pos hc]
        exact List.cons_ne_nil _ _
      . split
        . next hc =>
          have hc : isNumberPart c := by rcases hc with rfl | rfl <;> decide
          split
          . next d cs =>
            split
            . next hd =>
              rw [Nat.add_comm, List.take_succ_cons, List.take_succ_cons, take_length_takeWhile]
              have hne : (d :: cs).takeWhile Char.isDigit ≠ [] := by
                rw [List.takeWhile_cons_of_pos hd]
                exact List.cons_ne_nil _ _
              exact .cons he (List.cons_ne_nil _ _) (.cons hc hne (isNumberPiece_digits _))
            . exact isNumberPiece_nil
          . exact isNumberPiece_nil
        . exact isNumberPiece_nil
    . exact isNumberPiece_nil
  . exact isNumberPiece_nil

theorem isNumberPiece_suffix (cs : List Char) : IsNumberPiece (cs.take (suffixLength cs)) := by
  have hsuffix {c : Char} (h : isSuffix c) (cs : List Char) :
      IsNumberPiece (List.take 1 (c :: cs)) := by
    apply isNumberPiece_of_forall
    simp [isNumberEnd, h]
  cases cs with
  | nil => exact isNumberPiece_nil
  | cons c cs =>
    unfold suffixLength
    dsimp only
    by_cases h : isSuffix c
    . rw [if_pos h]
      cases cs with
      | nil => exact hsuffix h []
      | cons d cs =>
        dsimp only
        split
        . exact isNumberPiece_nil
        . exact hsuffix h (d :: cs)
    . rw [if_neg h]
      exact isNumberPiece_nil

/--
What a number consists of after its first character.
-/
theorem isNumberPiece_number (cs : List Char) : IsNumberPiece (cs.take (numberLength cs)) := by
  have hdigits : IsNumberPiece (cs.takeWhile fun c => c.isDigit || c = '.') := by
    apply isNumberPiece_of_forall
    intro c hc
    rw [isNumberEnd, List.mem_takeWhile_imp hc, Bool.true_or]
  unfold numberLength
  dsimp only
  rw [List.take_add, List.take_add, take_length_takeWhile]
  exact (hdigits.append (isNumberPiece_exponent _)).append (isNumberPiece_suffix _)

/--
What a name consists of: parts of identifiers, and points between them.
-/
theorem isPart_of_mem_word {cs : List Char} {c : Char} (hc : c ∈ cs.take (wordLength cs)) :
    VariableName.isPart c ∨ c = '.' := by
  fun_induction wordLength cs with
  | case1 => contradiction
  | case2 d h =>
    rw [List.mem_singleton.mp hc]
    exact .inl h
  | case3 => contradiction
  | case4 d e cs h ih =>
    rw [Nat.add_comm, List.take_succ_cons, List.mem_cons] at hc
    rcases hc with rfl | hc
    . simp only [Bool.or_eq_true, Bool.and_eq_true, decide_eq_true_eq] at h
      exact h.imp_right And.left
    . exact ih hc
  | case5 => contradiction

/--
No token goes on over a blank.
-/
theorem isBlank_of_mem_tail {c d : Char} {cs : List Char} (hd : d ∈ cs.take (tailLength c cs)) :
    Text.isBlank d = false := by
  unfold tailLength at hd
  split at hd
  . exact isBlank_of_isNumberPart ((isNumberPiece_number cs).isNumberPart d hd)
  . split at hd
    . rcases isPart_of_mem_word hd with h | rfl
      . exact VariableName.isBlank_of_isPart h
      . decide
    . split at hd
      . next h =>
        obtain ⟨cs, rfl⟩ := List.head?_eq_some_iff.mp h.2
        rw [List.mem_singleton.mp hd]
        decide
      . contradiction

theorem next_of_isBlank {b : Char} (hb : Text.isBlank b) (cs : List Char) :
    next b cs = (⟨.symbol, [b]⟩, cs) := by
  have hne {c : Char} (hc : Text.isBlank c = false) : b ≠ c := by
    rintro rfl
    rw [hb] at hc
    contradiction
  have hdigit : b.isDigit = false := by
    by_contra h
    exact hne (Text.isBlank_of_isDigit ((Bool.not_eq_false _).mp h)) rfl
  have hstart : VariableName.isStart b = false := by
    by_contra h
    have h := VariableName.isPart_of_isStart ((Bool.not_eq_false _).mp h)
    rw [VariableName.isPart_of_isBlank hb] at h
    contradiction
  have hpoint : b ≠ '.' := hne (by decide)
  have hstar : b ≠ '*' := hne (by decide)
  simp [next, tailLength, startsNumber, hdigit, hstart, hpoint, hstar]

/--
The tokens behind a blank do not depend on what is before it.
-/
theorem exists_tokens_append {b : Char} (hb : Text.isBlank b) (xs ys : List Char) :
    ∃ before, tokens (xs ++ b :: ys) = before ++ tokens ys := by
  induction hn : xs.length using Nat.strong_induction_on generalizing xs with
  | _ n ih =>
    cases xs with
    | nil =>
      rw [List.nil_append, tokens_cons, next_of_isBlank hb]
      exact ⟨[_], rfl⟩
    | cons c xs =>
      have hle : tailLength c (xs ++ b :: ys) ≤ xs.length := by
        by_contra hlt
        have hmem : b ∈ (xs ++ b :: ys).take (tailLength c (xs ++ b :: ys)) := by
          rw [List.take_append, List.mem_append]
          refine .inr ?_
          obtain ⟨m, hm⟩ := Nat.exists_eq_add_of_lt (not_le.mp hlt)
          rw [hm, show xs.length + m + 1 - xs.length = m + 1 by omega, List.take_succ_cons]
          exact List.mem_cons_self
        rw [isBlank_of_mem_tail hmem] at hb
        contradiction
      have hdrop : (next c (xs ++ b :: ys)).2
          = xs.drop (tailLength c (xs ++ b :: ys)) ++ b :: ys := by
        rw [next, List.drop_append_of_le_length hle]
      obtain ⟨before, hbefore⟩ := ih _ (by rw [List.length_drop, ← hn, List.length_cons]; omega)
        (xs.drop (tailLength c (xs ++ b :: ys))) rfl
      rw [List.cons_append, tokens_cons, hdrop, hbefore]
      exact ⟨_ :: before, rfl⟩

end Token

end Waveplan
