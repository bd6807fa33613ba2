import Waveplan.Yaml.Gap

/-!
This module contains block scalars: lines that are indented below a header, which says whether their
ends are kept or folded.
-/

namespace Waveplan.Yaml

/--
What becomes of the ends of the last lines of a block scalar.
-/
inductive Chomping where
  /-- All are dropped. -/
  | strip
  /-- The first one is kept. -/
  | clip
  /-- All are kept. -/
  | keep
  deriving DecidableEq, Repr

/--
The header of a block scalar.
-/
structure BlockHeader where
  /-- The ends of lines are kept. -/
  isLiteral : Bool
  chomping : Chomping := .clip
  /-- The indentation of the lines below their parent, if it is not told by the first line. -/
  indentation : Option Nat := none
  deriving DecidableEq, Repr

namespace BlockHeader

/--
The header with one more of its letters. Each kind of letter stands at most once.
-/
def addLetter (h : BlockHeader) (c : Char) : Option BlockHeader :=
  if c = '+' then some { h with chomping := .keep }
  else if c = '-' then some { h with chomping := .strip }
  else if c.isDigit ∧ c ≠ '0' then some { h with indentation := some (c.toNat - '0'.toNat) }
  else none

/--
The letters of a header: a chomping and an indentation, in either order.
-/
def isLetters : List Char → Bool
  | [] => true
  | [c] => isChomping c || c.isDigit
  | [c, d] => (isChomping c && d.isDigit) || (c.isDigit && isChomping d)
  | _ => false
where
  isChomping (c : Char) : Bool := c = '+' || c = '-'

/--
The header that a scalar begins with, and the number of its characters, up to and including the end
of the line.
-/
def read (cs : List Char) : Option (BlockHeader × Nat) :=
  match cs with
  | [] => none
  | style :: rest =>
    let letters := rest.takeWhile fun c => c = '+' || c = '-' || c.isDigit
    let afterLetters := rest.dropWhile fun c => c = '+' || c = '-' || c.isDigit
    let afterSpaces := afterLetters.dropWhile isSpace
    let afterComment :=
      if afterSpaces.head? = some '#' then afterSpaces.dropWhile fun c => !isBreak c
      else afterSpaces
    if isLetters letters then
      match letters.foldlM addLetter { isLiteral := decide (style = '|') }, afterComment with
      | some h, [] => some (h, cs.length)
      | some h, c :: afterBreak =>
        if isBreak c then some (h, cs.length - afterBreak.length) else none
      | none, _ => none
    else
      none

end BlockHeader

/--
The text of a block scalar while it is read. Characters are listed from the last one to the first.
-/
structure BlockText where
  reversed : List Char := []
  /-- The end of the last line. -/
  lineEnd : List Char := []
  /-- The ends of the empty lines after it. -/
  emptyLines : List Char := []
  /-- The last line begins with a space. -/
  startsWithSpace : Bool := false
  deriving DecidableEq, Repr

namespace BlockText

/--
Begin a new line. When lines are folded, a line feed between two lines that do not begin with a
space is dropped, and becomes a space if no empty line follows it.
-/
def beginLine (t : BlockText) (isLiteral : Bool) (c : Char) : BlockText :=
  let spaced := isSpace c
  let joint :=
    if !isLiteral && t.lineEnd = ['\n'] && !t.startsWithSpace && !spaced then
      if t.emptyLines = [] then [' '] else t.emptyLines
    else
      t.emptyLines ++ t.lineEnd
  { reversed := joint ++ t.reversed, startsWithSpace := spaced }

/--
The text with the ends of its last lines chomped.
-/
def finish (t : BlockText) (chomping : Chomping) : List Char :=
  let reversed := match chomping with
    | .strip => t.reversed
    | .clip => t.lineEnd ++ t.reversed
    | .keep => t.emptyLines ++ t.lineEnd ++ t.reversed
  reversed.reverse

end BlockText

/--
The lines of a block scalar. `indent` is their indentation, or zero as long as it is not known; then
`widest` is the indentation of the widest empty line. Within a line, `inLine` holds.
-/
def blockFrom (h : BlockHeader) (parent : Int) (indent widest column length : Nat) (inLine : Bool)
    (t : BlockText) : List Char → Option Lexeme
  | [] => some ⟨t.finish h.chomping, length, true⟩
  | c :: rest =>
    if inLine then
      if isBreak c then
        blockFrom h parent indent widest 0 (length + 1) false { t with lineEnd := [c] } rest
      else
        blockFrom h parent indent widest (column + 1) (length + 1) true
          { t with reversed := c :: t.reversed } rest
    else if (indent = 0 ∨ column < indent) ∧ c = ' ' then
      blockFrom h parent indent widest (column + 1) (length + 1) false t rest
    else if (indent = 0 ∨ column < indent) ∧ c = '\t' then none
    else if isBreak c then
      blockFrom h parent indent (max widest column) 0 (length + 1) false
        { t with emptyLines := c :: t.emptyLines } rest
    else
      let known := if indent = 0 then max (max (max widest column) (parent + 1).toNat) 1 else indent
      if column = known then
        let line := t.beginLine h.isLiteral c
        blockFrom h parent known widest (column + 1) (length + 1) true
          { line with reversed := c :: line.reversed } rest
      else
        some ⟨t.finish h.chomping, length, true⟩

/--
The block scalar whose header stands at a place, below a parent with some indentation.
-/
def Lexeme.block? (parent : Int) (c : Cursor) : Option Lexeme :=
  match BlockHeader.read c.rest with
  | none => none
  | some (h, length) =>
    let indent := match h.indentation with
      | some n => (max parent 0).toNat + n
      | none => 0
    blockFrom h parent indent 0 0 length false {} (c.rest.drop length)

end Waveplan.Yaml
