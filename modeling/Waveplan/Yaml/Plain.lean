import Waveplan.Yaml.Gap

/-!
This module contains scalars without quotes. They end before a comment, a colon with a gap behind it
and, in flow collections, before brackets and commas.
-/

namespace Waveplan.Yaml

/--
Whether a character divides or encloses the items of flow collections.
-/
def isFlowIndicator (c : Char) : Bool := [',', '[', ']', '\x7b', '\x7d'].contains c

/--
The rest of a plain scalar. Text that is less indented than `indent` belongs to something else,
unless the scalar stands in a flow collection.
-/
def plainFrom (inFlow : Bool) (indent : Int) (column length : Nat) (reversed : List Char)
    (gap : Gap) : List Char → Option Lexeme
  | [] => some ⟨reversed.reverse, length, gap.hasBreak⟩
  | c :: rest =>
    if isSpace c then
      if gap.hasBreak ∧ column < indent ∧ c = '\t' then none
      else
        plainFrom inFlow indent (column + 1) (length + 1) reversed (gap.addSpace c) rest
    else if isBreak c then
      plainFrom inFlow indent 0 (length + 1) reversed (gap.addBreak c) rest
    else if gap ≠ .nothing ∧ !inFlow ∧ column < indent
        ∨ startsWithBoundary column (c :: rest)
        ∨ gap ≠ .nothing ∧ c = '#' then
      some ⟨reversed.reverse, length, gap.hasBreak⟩
    else if inFlow ∧ c = ':' ∧ rest.head?.any fun next => next = '?' || isFlowIndicator next then
      none
    else if c = ':' ∧ isGapNext rest ∨ inFlow ∧ isFlowIndicator c then
      some ⟨reversed.reverse, length, gap.hasBreak⟩
    else
      plainFrom inFlow indent (column + 1) (length + 1) (c :: (gap.folded ++ reversed)) .nothing
        rest

def Lexeme.plain? (inFlow : Bool) (indent : Int) (c : Cursor) : Option Lexeme :=
  plainFrom inFlow indent c.column 0 [] .nothing c.rest

end Waveplan.Yaml
