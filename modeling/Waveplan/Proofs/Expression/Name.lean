import Waveplan.Proofs.Expression.Identifiers

/-!
This module contains that a valid name is one word: the segments between its points are identifiers
just when the scanner of words goes on to its end. In formulas it becomes one identifier.
-/

namespace Waveplan.VariableName

/--
What can follow the first character of a valid name.
-/
def isTail (cs : List Char) : Bool :=
  match segments cs with
  | [] => false
  | s :: rest => s.all isPart && rest.all isIdentifier

theorem exists_segments (cs : List Char) : ∃ s rest, segments cs = s :: rest := by
  cases cs with
  | nil => exact ⟨_, _, rfl⟩
  | cons c cs =>
    unfold segments
    split
    . exact ⟨_, _, rfl⟩
    . split <;> exact ⟨_, _, rfl⟩

theorem isValid_cons (c : Char) (cs : List Char) :
    isValid (c :: cs) = (isStart c && isTail cs) := by
  obtain ⟨s, rest, hs⟩ := exists_segments cs
  rw [isValid, segments, isTail, hs]
  by_cases hc : c = '.'
  . subst hc
    rfl
  . simp [hc, isIdentifier, Bool.and_assoc]

theorem isTail_cons (c : Char) (cs : List Char) :
    isTail (c :: cs) = if c = '.' then isValid cs else isPart c && isTail cs := by
  obtain ⟨s, rest, hs⟩ := exists_segments cs
  rw [isValid, isTail, segments, isTail, hs]
  by_cases hc : c = '.'
  . simp [hc]
  . simp [hc, Bool.and_assoc]

theorem isPart_point : isPart '.' = false := by decide

theorem ne_point_of_isPart {c : Char} (h : isPart c) : c ≠ '.' := by
  rintro rfl
  rw [isPart_point] at h
  contradiction

theorem wordLength_eq_length_iff (cs : List Char) :
    Token.wordLength cs = cs.length ↔ isTail cs := by
  fun_induction Token.wordLength cs with
  | case1 => exact iff_of_true rfl rfl
  | case2 c hc => simp [isTail, segments, ne_point_of_isPart hc, hc]
  | case3 c hc => simp [isTail_cons, isValid, segments, isIdentifier, hc]
  | case4 c d cs h ih =>
    rw [isTail_cons, List.length_cons, Nat.add_comm, Nat.add_right_cancel_iff, ih]
    rcases (Bool.or_eq_true _ _).mp h with hc | hc
    . rw [if_neg (ne_point_of_isPart hc), hc, Bool.true_and]
    . obtain ⟨hc, hd⟩ := (Bool.and_eq_true _ _).mp hc
      have hpart := isPart_of_isStart hd
      rw [if_pos (of_decide_eq_true hc), isValid_cons, hd, Bool.true_and, isTail_cons,
        if_neg (ne_point_of_isPart hpart), hpart, Bool.true_and]
  | case5 c d cs h =>
    rw [Bool.or_eq_true, not_or, Bool.and_eq_true, not_and] at h
    rw [isTail_cons, isValid_cons]
    by_cases hc : c = '.'
    . simp [hc, h.2 (decide_eq_true hc)]
    . simp [hc, h.1]

/--
A valid name is a word that begins with the start of an identifier.
-/
theorem isValid_cons_iff {c : Char} {cs : List Char} :
    isValid (c :: cs) ↔ isStart c ∧ Token.wordLength cs = cs.length := by
  rw [wordLength_eq_length_iff, isValid_cons, Bool.and_eq_true]

theorem isPart_of_mem {name : List Char} (h : isValid name) {c : Char} (hc : c ∈ name) :
    isPart c ∨ c = '.' := by
  cases name with
  | nil => contradiction
  | cons d cs =>
    obtain ⟨hd, hcs⟩ := isValid_cons_iff.mp h
    rcases List.mem_cons.mp hc with rfl | hc
    . exact .inl (isPart_of_isStart hd)
    . apply Token.isPart_of_mem_word
      rwa [hcs, List.take_length]

def isAscii (name : List Char) : Bool := name.all (·.toNat < 128)

/--
A letter or an underscore, followed by letters, digits and underscores, all of them from ASCII.
-/
def isAsciiIdentifier : List Char → Bool
  | [] => false
  | c :: cs => (c.isAlpha || c = '_') && cs.all fun c => c.isAlphanum || c = '_'

section Ascii

variable {c : Char}

theorem isAlpha_of_isStart (h : isStart c) (hascii : c.toNat < 128) : c.isAlpha || c = '_' := by
  simpa only [isStart, Text.isAlphabetic, if_pos hascii] using h

theorem isAlphanum_of_isPart (h : isPart c) (hascii : c.toNat < 128) :
    c.isAlphanum || c = '_' := by
  simpa only [isPart, Text.isAlphanumeric, Text.isAlphabetic, Text.isNumeric, if_pos hascii,
    Char.isAlphanum] using h

end Ascii

theorem eq_or_mem_of_mem_mangle {name : List Char} {c : Char} (h : c ∈ mangle name) :
    c = '_' ∨ c ∈ name ∧ c ≠ '.' := by
  obtain ⟨d, hd, hc⟩ := List.mem_flatMap.mp h
  split at hc
  . exact .inl (List.eq_of_mem_replicate (show c ∈ List.replicate 2 '_' from hc))
  . next hne =>
    rw [List.mem_singleton.mp hc]
    exact .inr ⟨hd, hne⟩

theorem isPart_of_mem_mangle {name : List Char} (h : isValid name) {c : Char}
    (hc : c ∈ mangle name) : isPart c := by
  rcases eq_or_mem_of_mem_mangle hc with rfl | ⟨hc, hne⟩
  . decide
  . exact (isPart_of_mem h hc).resolve_right hne

theorem mangle_ne_nil {name : List Char} (h : isValid name) : mangle name ≠ [] := by
  cases name with
  | nil => contradiction
  | cons c cs =>
    have hc := isPart_of_isStart (isValid_cons_iff.mp h).1
    rw [mangle_cons_of_ne (ne_point_of_isPart hc)]
    exact List.cons_ne_nil _ _

theorem isAsciiIdentifier_mangle {name : List Char} (h : isValid name)
    (hascii : isAscii name) : isAsciiIdentifier (mangle name) := by
  cases name with
  | nil => contradiction
  | cons c cs =>
    have hc := (isValid_cons_iff.mp h).1
    have hascii : ∀ d ∈ c :: cs, d.toNat < 128 := by simpa [isAscii] using hascii
    have hparts : ∀ d ∈ mangle (c :: cs), d.isAlphanum || d = '_' := by
      intro d hd
      apply isAlphanum_of_isPart (isPart_of_mem_mangle h hd)
      rcases eq_or_mem_of_mem_mangle hd with rfl | ⟨hd, _⟩
      . decide
      . exact hascii d hd
    rw [mangle_cons_of_ne (ne_point_of_isPart (isPart_of_isStart hc))] at hparts ⊢
    rw [isAsciiIdentifier, Bool.and_eq_true, List.all_eq_true]
    exact ⟨isAlpha_of_isStart hc (hascii c List.mem_cons_self),
      (List.forall_mem_cons.mp hparts).2⟩

end Waveplan.VariableName
