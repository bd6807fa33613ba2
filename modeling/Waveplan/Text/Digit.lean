/-!
This module contains digits in bases up to sixteen.
-/

namespace Waveplan.Text

/--
The value of a digit, the letters from `a` to `f` following after nine.
-/
def digitValue? (c : Char) : Option Nat :=
  if c.isDigit then some (c.toNat - '0'.toNat)
  else if 'a' ≤ c ∧ c ≤ 'f' then some (c.toNat - 'a'.toNat + 10)
  else if 'A' ≤ c ∧ c ≤ 'F' then some (c.toNat - 'A'.toNat + 10)
  else none

end Waveplan.Text
