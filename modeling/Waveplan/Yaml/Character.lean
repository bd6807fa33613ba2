/-!
This module contains the characters that a YAML text consists of.
-/

namespace Waveplan.Yaml

/--
Whether a character may stand in a text. All other characters can only be written by their code
point, between double quotes.
-/
def isPrintable (c : Char) : Bool :=
  let n := c.toNat
  n = 0x9 || n = 0xA || n = 0xD || (0x20 ≤ n && n ≤ 0x7E) || n = 0x85
    || (0xA0 ≤ n && n ≤ 0xD7FF) || (0xE000 ≤ n && n ≤ 0xFFFD) || 0x10000 ≤ n

/--
Whether a character ends a line, after `unifyBreaks`.
-/
def isBreak (c : Char) : Bool := c = '\n' || c = '\u2028' || c = '\u2029'

def isSpace (c : Char) : Bool := c = ' ' || c = '\t'

/--
Whether a text goes on with a space, a new line, or not at all.
-/
def isGapNext : List Char → Bool
  | [] => true
  | c :: _ => isSpace c || isBreak c

/--
The characters of the names of anchors, directives and tags.
-/
def isNameChar (c : Char) : Bool := c.isAlphanum || c = '_' || c = '-'

/--
Write every end of a line as a line feed. The line and paragraph separators end a line as well, but
they are kept, since scalars keep them.
-/
def unifyBreaks : List Char → List Char
  | [] => []
  | '\r' :: '\n' :: rest => '\n' :: unifyBreaks rest
  | '\r' :: rest => '\n' :: unifyBreaks rest
  | '\u0085' :: rest => '\n' :: unifyBreaks rest
  | c :: rest => c :: unifyBreaks rest

/--
The characters of a text, without the byte order mark that it may begin with.
-/
def characters? (text : String) : Option (List Char) :=
  let cs := text.toList
  if cs.all isPrintable then
    match unifyBreaks cs with
    | '\ufeff' :: rest => some rest
    | rest => some rest
  else
    none

/--
Whether a text goes on with a mark that stands alone.
-/
def startsWithMark (mark cs : List Char) : Bool :=
  mark.isPrefixOf cs && isGapNext (cs.drop mark.length)

/--
The marks that begin and end a document, at the beginning of a line.
-/
def documentStartMark : List Char := ['-', '-', '-']

def documentEndMark : List Char := ['.', '.', '.']

/--
Whether a text goes on with a mark between documents.
-/
def startsWithBoundary (column : Nat) (cs : List Char) : Bool :=
  column = 0 && (startsWithMark documentStartMark cs || startsWithMark documentEndMark cs)

def nextColumn (column : Nat) (c : Char) : Nat := if isBreak c then 0 else column + 1

/--
A place in a text and what follows it.
-/
structure Cursor where
  rest : List Char
  /-- The number of characters before. -/
  index : Nat
  line : Nat
  column : Nat
  deriving DecidableEq, Repr

namespace Cursor

def start (cs : List Char) : Cursor := ⟨cs, 0, 0, 0⟩

def skip (c : Cursor) : Cursor :=
  match c.rest with
  | [] => c
  | x :: rest =>
    ⟨rest, c.index + 1, if isBreak x then c.line + 1 else c.line, nextColumn c.column x⟩

/--
The place behind the next `n` characters.
-/
def skipMany (c : Cursor) (n : Nat) : Cursor := n.repeat skip c

end Cursor

end Waveplan.Yaml
