import Waveplan.Text.Digit
import Waveplan.Yaml.Gap

/-!
This module contains scalars between single or double quotes.
-/

namespace Waveplan.Yaml

/--
The rest of a scalar between single quotes. A quote inside it is written twice.
-/
def singleQuotedFrom (column length : Nat) (reversed : List Char) (gap : Gap) :
    List Char → Option Lexeme
  | [] => none
  | '\'' :: '\'' :: rest =>
    singleQuotedFrom (column + 2) (length + 2) ('\'' :: (gap.folded ++ reversed)) .nothing rest
  | c :: rest =>
    if startsWithBoundary column (c :: rest) then none
    else if c = '\'' then some ⟨(gap.folded ++ reversed).reverse, length + 1, false⟩
    else if isSpace c then
      singleQuotedFrom (column + 1) (length + 1) reversed (gap.addSpace c) rest
    else if isBreak c then
      singleQuotedFrom 0 (length + 1) reversed (gap.addBreak c) rest
    else
      singleQuotedFrom (column + 1) (length + 1) (c :: (gap.folded ++ reversed)) .nothing rest

/--
The character that an escape of one letter stands for.
-/
def escaped? : Char → Option Char
  | '0' => some '\x00'
  | 'a' => some '\x07'
  | 'b' => some '\x08'
  | 't' | '\t' => some '\t'
  | 'n' => some '\n'
  | 'v' => some '\x0b'
  | 'f' => some '\x0c'
  | 'r' => some '\r'
  | 'e' => some '\x1b'
  | ' ' => some ' '
  | '"' => some '"'
  | '/' => some '/'
  | '\\' => some '\\'
  | 'N' => some '\u0085'
  | '_' => some '\u00a0'
  | 'L' => some '\u2028'
  | 'P' => some '\u2029'
  | _ => none

/--
The number of hexadecimal digits that follow an escape by code point.
-/
def codeLength? : Char → Option Nat
  | 'x' => some 2
  | 'u' => some 4
  | 'U' => some 8
  | _ => none

/--
The character with a code point. Surrogates are no characters.
-/
def charOfCode? (code : Nat) : Option Char :=
  if code.isValidChar then some (Char.ofNat code) else none

/--
What the next character of a scalar between double quotes is.
-/
inductive QuotedMode where
  | content
  /-- The letter of an escape. -/
  | escape
  /-- One of the last `left` digits of a code point. -/
  | code (left value : Nat)
  deriving DecidableEq, Repr

/--
The rest of a scalar between double quotes.
-/
def doubleQuotedFrom (column length : Nat) (reversed : List Char) (gap : Gap) (mode : QuotedMode) :
    List Char → Option Lexeme
  | [] => none
  | c :: rest =>
    match mode with
    | .code left value =>
      match Text.digitValue? c with
      | none => none
      | some digit =>
        let code := 16 * value + digit
        if left ≤ 1 then
          match charOfCode? code with
          | none => none
          | some x =>
            doubleQuotedFrom (column + 1) (length + 1) (x :: reversed) .nothing .content rest
        else
          doubleQuotedFrom (column + 1) (length + 1) reversed .nothing (.code (left - 1) code) rest
    | .escape =>
      if isBreak c then
        doubleQuotedFrom 0 (length + 1) reversed (.continuation []) .content rest
      else
        match escaped? c, codeLength? c with
        | some x, _ =>
          doubleQuotedFrom (column + 1) (length + 1) (x :: reversed) .nothing .content rest
        | none, some left =>
          doubleQuotedFrom (column + 1) (length + 1) reversed .nothing (.code left 0) rest
        | none, none => none
    | .content =>
      if startsWithBoundary column (c :: rest) then none
      else if c = '"' then some ⟨(gap.folded ++ reversed).reverse, length + 1, false⟩
      else if c = '\\' then
        doubleQuotedFrom (column + 1) (length + 1) (gap.folded ++ reversed) .nothing .escape rest
      else if isSpace c then
        doubleQuotedFrom (column + 1) (length + 1) reversed (gap.addSpace c) .content rest
      else if isBreak c then
        doubleQuotedFrom 0 (length + 1) reversed (gap.addBreak c) .content rest
      else
        doubleQuotedFrom (column + 1) (length + 1) (c :: (gap.folded ++ reversed)) .nothing
          .content rest

def Lexeme.singleQuoted? (c : Cursor) : Option Lexeme :=
  singleQuotedFrom (c.column + 1) 1 [] .nothing (c.rest.drop 1)

def Lexeme.doubleQuoted? (c : Cursor) : Option Lexeme :=
  doubleQuotedFrom (c.column + 1) 1 [] .nothing .content (c.rest.drop 1)

end Waveplan.Yaml
