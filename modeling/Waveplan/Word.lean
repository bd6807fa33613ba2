/-!
This module contains the machine words that ticks, lengths and times in nanoseconds are counted in.

A sum or a product that does not fit a word ends the program. Everywhere else the result that does
not fit is replaced: a word that is read as a signed one wraps around, and a real number becomes the
nearest word.
-/

namespace Waveplan

/--
The number of values of a 64-bit word, which times in nanoseconds and positions are counted in.
-/
def wordModulus : Nat := 0x10000000000000000

/--
The number of values of a 64-bit word that are not negative when it is read as a signed one.
-/
def signedBound : Nat := 0x8000000000000000

/--
Errors that tell, among other things, that a sum or a product does not fit a word. Such an error ends
the program wherever it happens; the errors around it say where.
-/
class HasOverflow (ε : Type) where
  overflow : ε

namespace Word

def overflowMessage : String := "arithmetic overflow"

/--
The result of a sum or a product of words.
-/
def checked {ε : Type} [HasOverflow ε] (n : Nat) : Except ε Nat :=
  if n < wordModulus then .ok n else .error HasOverflow.overflow

/--
The result of a sum of signed words.
-/
def checkedSigned {ε : Type} [HasOverflow ε] (n : Int) : Except ε Int :=
  if -signedBound ≤ n ∧ n < signedBound then .ok n else .error HasOverflow.overflow

/--
A word read as a signed one.
-/
def toSigned (n : Nat) : Int := (n : Int).bmod wordModulus

/--
The word nearest to a count.
-/
def nearest (n : Nat) : Nat := min n (wordModulus - 1)

/--
The signed word nearest to a whole number.
-/
def nearestSigned (n : Int) : Int := max (-signedBound) (min n (signedBound - 1))

theorem nearest_lt (n : Nat) : nearest n < wordModulus := by
  unfold nearest wordModulus
  omega

theorem nearest_le (n : Nat) : nearest n ≤ n := Nat.min_le_left _ _

theorem le_nearest {m n : Nat} (hm : m < wordModulus) (h : m ≤ n) : m ≤ nearest n := by
  unfold nearest
  omega

theorem nearest_le_nearest {m n : Nat} (h : m ≤ n) : nearest m ≤ nearest n := by
  unfold nearest
  omega

/--
Below the last word, a count and its nearest word are on the same side.
-/
theorem nearest_le_iff {k n : Nat} (hk : k + 1 < wordModulus) : nearest n ≤ k ↔ n ≤ k := by
  unfold nearest
  omega

theorem toSigned_of_lt {n : Nat} (h : n < signedBound) : toSigned n = n := by
  apply Int.bmod_eq_of_le_mul_two
  . unfold wordModulus
    omega
  . unfold wordModulus
    unfold signedBound at h
    omega

theorem toSigned_of_le {n : Nat} (h : signedBound ≤ n) (hn : n < wordModulus) :
    toSigned n = n - wordModulus := by
  unfold toSigned signedBound wordModulus at *
  rw [Int.bmod_def, Int.emod_eq_of_lt (by omega) (by omega), if_neg (by omega)]

section Checked

variable {ε : Type} [HasOverflow ε] {m n : Nat}

theorem checkedSigned_eq_ok_iff {m n : Int} : (checkedSigned n : Except ε Int) = .ok m
    ↔ -signedBound ≤ n ∧ n < signedBound ∧ n = m := by
  rw [checkedSigned, ← and_assoc]
  split <;> simp [*]

theorem checked_eq_ok_iff : (checked n : Except ε Nat) = .ok m ↔ n < wordModulus ∧ n = m := by
  unfold checked
  split <;> simp [*]

@[simp]
theorem checked_of_lt (h : n < wordModulus) : (checked n : Except ε Nat) = .ok n := if_pos h

@[simp]
theorem checked_of_le (h : wordModulus ≤ n) :
    (checked n : Except ε Nat) = .error HasOverflow.overflow := if_neg (by omega)

/--
A result that is made of a smaller one overflows if the smaller one does.
-/
theorem checked_bind_checked {f : Nat → Nat} (h : m ≤ f m) :
    (checked m >>= fun n => checked (f n) : Except ε Nat) = checked (f m) := by
  rcases Nat.lt_or_ge m wordModulus with hm | hm
  . rw [checked_of_lt hm]
    rfl
  . rw [checked_of_le hm, checked_of_le (Nat.le_trans hm h)]
    rfl

end Checked

end Word

end Waveplan
