import Waveplan.Yaml.Character

/-!
This module contains what stands between the words of a scalar: spaces, or ends of lines, which are
folded when the next word follows.
-/

namespace Waveplan.Yaml

/--
What stands between two words. Characters are listed from the last one to the first.
-/
inductive Gap where
  | nothing
  | spaces (reversed : List Char)
  /-- The end of a line, and those of the empty lines after it. -/
  | lines (first : Char) (reversed : List Char)
  /-- The end of a line that is written but not meant, and those of the empty lines after it. -/
  | continuation (reversed : List Char)
  deriving DecidableEq, Repr

namespace Gap

/--
The gap with one more space. Spaces around the ends of lines are dropped.
-/
def addSpace (c : Char) : Gap → Gap
  | .nothing => .spaces [c]
  | .spaces reversed => .spaces (c :: reversed)
  | gap => gap

/--
The gap with one more end of a line.
-/
def addBreak (c : Char) : Gap → Gap
  | .nothing | .spaces _ => .lines c []
  | .lines first reversed => .lines first (c :: reversed)
  | .continuation reversed => .continuation (c :: reversed)

/--
What the gap contributes to the text, in reverse: a single line feed becomes a space, and more of
them lose the first one.
-/
def folded : Gap → List Char
  | .nothing => []
  | .spaces reversed => reversed
  | .lines '\n' [] => [' ']
  | .lines '\n' reversed => reversed
  | .lines first reversed => reversed ++ [first]
  | .continuation reversed => reversed

def hasBreak : Gap → Bool
  | .lines _ _ | .continuation _ => true
  | _ => false

end Gap

/--
A scalar that has been read.
-/
structure Lexeme where
  text : List Char
  /-- The number of characters that the scalar is written with. -/
  length : Nat
  /-- The scalar ends behind the end of a line. -/
  endsLine : Bool
  deriving DecidableEq, Repr

end Waveplan.Yaml
