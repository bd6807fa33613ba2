/-!
This module contains the lookup of a character in a table of code point ranges.
-/

namespace Waveplan.Text

/--
Whether a code point lies in one of the closed ranges of a table.
-/
def inRanges (table : Array (Nat × Nat)) (code : Nat) : Bool :=
  table.any fun (low, high) => low ≤ code && code ≤ high

end Waveplan.Text
