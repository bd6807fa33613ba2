import Waveplan.Yaml.Block
import Waveplan.Yaml.Plain
import Waveplan.Yaml.Quoted
import Waveplan.Yaml.Tag

/-!
This module contains the tokens of a YAML text. Indentation shows in them as the beginnings and ends
of blocks, and every key of a map has a token in front of it.
-/

namespace Waveplan.Yaml

/--
A token. Lists and maps are either indented blocks or, in flow, enclosed in brackets.
-/
inductive Token where
  | directive (directive : Directive)
  | documentStart
  | documentEnd
  | blockListStart
  | blockMapStart
  | blockEnd
  | flowListStart
  | flowListEnd
  | flowMapStart
  | flowMapEnd
  | blockItem
  | flowItem
  | key
  | value
  | alias (name : List Char)
  | anchor (name : List Char)
  | tag (tag : Tag)
  | scalar (text : List Char) (isPlain : Bool)
  deriving DecidableEq, Repr

/--
A token that may turn out to be the key of a map.
-/
structure KeyCandidate where
  /-- The number of tokens before it. -/
  position : Nat
  cursor : Cursor
  /-- The token can be nothing but a key, since it stands where a block is indented. -/
  isRequired : Bool
  deriving DecidableEq, Repr

/--
A text in the middle of being split into tokens.
-/
structure Scan where
  cursor : Cursor
  /-- The tokens so far, from the last one to the first. -/
  reversed : List Token := []
  /-- A key may begin here. -/
  allowsKey : Bool := true
  /-- The indentation of the innermost block, or minus one outside of all blocks. -/
  indent : Int := -1
  /-- The indentations of the blocks around it. -/
  outer : List Int := []
  /-- The key that may stand in front, in the innermost flow collection and in all around it. -/
  candidates : List (Option KeyCandidate) := [none]
  deriving DecidableEq, Repr

namespace Scan

def start (cs : List Char) : Scan := { cursor := .start cs }

def inFlow (s : Scan) : Bool := s.candidates.length ≥ 2

/--
Put a token in front of all but the first `position` tokens.
-/
def pushAt (s : Scan) (position : Nat) (t : Token) : Scan :=
  let after := s.reversed.length - position
  { s with reversed := s.reversed.take after ++ t :: s.reversed.drop after }

/--
A token of `n` characters.
-/
def pushMark (s : Scan) (t : Token) (n : Nat) : Scan :=
  { s with reversed := t :: s.reversed, cursor := s.cursor.skipMany n }

/--
Forget the key that may stand in front. It is an error if there has to be one.
-/
def dropCandidate (s : Scan) : Option Scan :=
  match s.candidates with
  | some candidate :: rest =>
    if candidate.isRequired then none else some { s with candidates := none :: rest }
  | _ => some s

/--
Keep in mind that the next token may be a key.
-/
def markCandidate (s : Scan) : Option Scan :=
  if s.allowsKey then
    match s.dropCandidate with
    | none => none
    | some s =>
      let candidate : KeyCandidate :=
        { position := s.reversed.length
          cursor := s.cursor
          isRequired := !s.inFlow && s.indent = s.cursor.column }
      some { s with candidates := some candidate :: s.candidates.drop 1 }
  else
    some s

/--
The number of characters that a key may have.
-/
def keyLimit : Nat := 1024

/--
Forget the candidates that the text has gone too far for: a key ends on the line it begins on.
-/
def dropStale (s : Scan) : Option Scan := do
  let candidates ← s.candidates.mapM fun candidate? =>
    match candidate? with
    | none => some none
    | some candidate =>
      if candidate.cursor.line < s.cursor.line
          ∨ candidate.cursor.index + keyLimit < s.cursor.index then
        if candidate.isRequired then none else some none
      else
        some (some candidate)
  some { s with candidates }

/--
Begin a block at a column that is indented, in front of all but the first `position` tokens.
-/
def indentTo (s : Scan) (column : Nat) (position : Nat) (t : Token) : Scan :=
  if !s.inFlow ∧ s.indent < column then
    { s.pushAt position t with indent := column, outer := s.indent :: s.outer }
  else
    s

/--
End the blocks that are indented beyond a column.
-/
def dedentTo (s : Scan) (column : Int) : Scan :=
  if s.inFlow then s else go s.indent s.outer s.reversed
where
  go (indent : Int) (outer : List Int) (reversed : List Token) : Scan :=
    match outer with
    | [] => { s with indent, outer, reversed }
    | next :: rest =>
      if column < indent then go next rest (.blockEnd :: reversed)
      else { s with indent, outer := next :: rest, reversed }

/--
Skip spaces, comments and ends of lines. Tabs stand only where no key can begin.
-/
def skipGap (s : Scan) : Scan := go s.cursor.rest s.cursor s.allowsKey false
where
  go (cs : List Char) (cursor : Cursor) (allowsKey inComment : Bool) : Scan :=
    match cs with
    | [] => { s with cursor, allowsKey }
    | c :: rest =>
      if isBreak c then go rest cursor.skip (allowsKey || !s.inFlow) false
      else if inComment ∨ c = ' ' ∨ (c = '\t' ∧ (s.inFlow ∨ !allowsKey)) then
        go rest cursor.skip allowsKey inComment
      else if c = '#' then go rest cursor.skip allowsKey true
      else { s with cursor, allowsKey }

def openFlow (s : Scan) (t : Token) : Option Scan := do
  let s ← s.markCandidate
  some ({ s with candidates := none :: s.candidates, allowsKey := true }.pushMark t 1)

def closeFlow (s : Scan) (t : Token) : Option Scan := do
  let s ← s.dropCandidate
  let candidates := if s.inFlow then s.candidates.drop 1 else s.candidates
  some ({ s with candidates, allowsKey := false }.pushMark t 1)

def flowItem (s : Scan) : Option Scan := do
  let s ← s.dropCandidate
  some ({ s with allowsKey := true }.pushMark .flowItem 1)

def blockItem (s : Scan) : Option Scan := do
  if !s.inFlow ∧ !s.allowsKey then none
  else
    let s := s.indentTo s.cursor.column s.reversed.length .blockListStart
    let s ← s.dropCandidate
    some ({ s with allowsKey := true }.pushMark .blockItem 1)

/--
A mark that says that a key follows.
-/
def explicitKey (s : Scan) : Option Scan := do
  if !s.inFlow ∧ !s.allowsKey then none
  else
    let s := s.indentTo s.cursor.column s.reversed.length .blockMapStart
    let s ← s.dropCandidate
    some ({ s with allowsKey := !s.inFlow }.pushMark .key 1)

/--
A mark that says that a value follows. The key stands in front of it.
-/
def value (s : Scan) : Option Scan :=
  match s.candidates with
  | some candidate :: rest =>
    let s := s.pushAt candidate.position .key
    let s := s.indentTo candidate.cursor.column candidate.position .blockMapStart
    some ({ s with candidates := none :: rest, allowsKey := false }.pushMark .value 1)
  | _ =>
    if !s.inFlow ∧ !s.allowsKey then none
    else
      let s := s.indentTo s.cursor.column s.reversed.length .blockMapStart
      some ({ s with allowsKey := !s.inFlow }.pushMark .value 1)

/--
A scalar that may be a key.
-/
def flowScalar (s : Scan) (isPlain : Bool) (lexeme? : Option Lexeme) : Option Scan := do
  let s ← s.markCandidate
  let lexeme ← lexeme?
  some ({ s with allowsKey := lexeme.endsLine }.pushMark (.scalar lexeme.text isPlain)
    lexeme.length)

def blockScalar (s : Scan) : Option Scan := do
  let s ← s.dropCandidate
  let lexeme ← Lexeme.block? s.indent s.cursor
  some ({ s with allowsKey := true }.pushMark (.scalar lexeme.text false) lexeme.length)

/--
Whether a name may end before a text.
-/
def endsName : List Char → Bool
  | [] => true
  | c :: rest => isGapNext (c :: rest) || ['?', ':', ',', ']', '}', '%', '@', '\x60'].contains c

/--
A name behind a mark: an anchor, or an alias that stands for the anchored value.
-/
def named (s : Scan) (token : List Char → Token) : Option Scan := do
  let s ← s.markCandidate
  let body := s.cursor.rest.drop 1
  let name := body.takeWhile isNameChar
  if name = [] ∨ !endsName (body.drop name.length) then none
  else some ({ s with allowsKey := false }.pushMark (token name) (name.length + 1))

/--
A tag in front of a value. A gap must follow, or a comma in a flow collection.
-/
def tag (s : Scan) : Option Scan := do
  let s ← s.markCandidate
  let (tag, rest) ← Tag.read s.cursor.rest
  if isGapNext rest || (s.inFlow && rest.head? = some ',') then
    some ({ s with allowsKey := false }.pushMark (.tag tag) (s.cursor.rest.length - rest.length))
  else
    none

/--
A mark or directive between documents, which ends all blocks.
-/
def boundary (s : Scan) (t : Token) (length : Nat) : Option Scan := do
  let s ← (s.dedentTo (-1)).dropCandidate
  some ({ s with allowsKey := false }.pushMark t length)

def directive (s : Scan) : Option Scan := do
  let (directive, rest) ← Directive.read s.cursor.rest
  s.boundary (.directive directive) (s.cursor.rest.length - rest.length)

/--
Whether a plain scalar can begin with a character that other text follows.
-/
def startsPlain (inFlow : Bool) (c : Char) (rest : List Char) : Bool :=
  if c = '-' then !(rest.head?.any isSpace)
  else if c = '?' ∨ c = ':' then !inFlow && !isGapNext rest
  else !isSpace c && !isBreak c && !",[]\x7b\x7d#&*!|>'\"%@\x60".toList.contains c

/--
The text with one more token, which begins with a given character.
-/
def token (s : Scan) (c : Char) (rest : List Char) : Option Scan :=
  if s.cursor.column = 0 ∧ c = '%' then s.directive
  else if s.cursor.column = 0 ∧ startsWithMark documentStartMark (c :: rest) then
    s.boundary .documentStart 3
  else if s.cursor.column = 0 ∧ startsWithMark documentEndMark (c :: rest) then
    s.boundary .documentEnd 3
  else if c = '[' then s.openFlow .flowListStart
  else if c = '\x7b' then s.openFlow .flowMapStart
  else if c = ']' then s.closeFlow .flowListEnd
  else if c = '\x7d' then s.closeFlow .flowMapEnd
  else if c = ',' then s.flowItem
  else if c = '-' ∧ isGapNext rest then s.blockItem
  else if c = '?' ∧ (s.inFlow ∨ isGapNext rest) then s.explicitKey
  else if c = ':' ∧ (s.inFlow ∨ isGapNext rest) then s.value
  else if c = '*' then s.named .alias
  else if c = '&' then s.named .anchor
  else if c = '!' then s.tag
  else if (c = '|' ∨ c = '>') ∧ !s.inFlow then s.blockScalar
  else if c = '\'' then s.flowScalar false (Lexeme.singleQuoted? s.cursor)
  else if c = '"' then s.flowScalar false (Lexeme.doubleQuoted? s.cursor)
  else if startsPlain s.inFlow c rest then
    s.flowScalar true (Lexeme.plain? s.inFlow (s.indent + 1) s.cursor)
  else
    none

/--
All tokens of the text. Every token but the ends of blocks takes at least one character, so that
the characters of the text are enough steps.
-/
def tokens? : Nat → Scan → Option (List Token)
  | 0, _ => none
  | steps + 1, s => do
    let s ← s.skipGap.dropStale
    let s := s.dedentTo s.cursor.column
    match s.cursor.rest with
    | [] =>
      let s ← (s.dedentTo (-1)).dropCandidate
      some s.reversed.reverse
    | c :: rest =>
      let s ← s.token c rest
      s.tokens? steps

end Scan

/--
The tokens of a text.
-/
def Token.ofText? (text : String) : Option (List Token) := do
  let cs ← characters? text
  (Scan.start cs).tokens? (cs.length + 1)

end Waveplan.Yaml
