import Waveplan.Expression.Name
import Waveplan.Text.Blank

/-!
This module contains the tokens of expressions.

The main statements are `length_next_le`, by which every token takes at least one character, and
`flatMap_text_tokens`, by which the tokens of a text are the text.
-/

namespace Waveplan

inductive TokenKind where
  | number
  /-- The words `and`, `or` and `not`. -/
  | conjunction | disjunction | negation
  /-- The words for `true` and `false`, in any case. -/
  | literal (value : Bool)
  /-- A name in front of an opening parenthesis. -/
  | function
  | variable
  /-- Two asterisks. -/
  | power
  | symbol
  deriving DecidableEq, Repr

structure Token where
  kind : TokenKind
  text : List Char
  deriving DecidableEq, Repr

namespace Token

/--
The letters that can end a number, standing for powers of ten.
-/
def isSuffix (c : Char) : Bool := ['k', 'M', 'G', 'T', 'm', 'u', 'µ', 'n', 'p'].contains c

/--
The exponent at the beginning of a text: the letter `e`, an optional sign and at least one digit.
-/
def exponentLength : List Char → Nat
  | e :: c :: cs =>
    if e = 'e' ∨ e = 'E' then
      if c.isDigit then 1 + ((c :: cs).takeWhile Char.isDigit).length
      else if c = '+' ∨ c = '-' then
        match cs with
        | d :: _ => if d.isDigit then 2 + (cs.takeWhile Char.isDigit).length else 0
        | [] => 0
      else 0
    else 0
  | _ => 0

/--
The suffix at the beginning of a text: a letter that no identifier goes on after.
-/
def suffixLength : List Char → Nat
  | [] => 0
  | c :: cs =>
    if isSuffix c then
      match cs with
      | d :: _ => if VariableName.isPart d then 0 else 1
      | [] => 1
    else 0

/--
The number of characters of a number after its first one.
-/
def numberLength (cs : List Char) : Nat :=
  let digits := (cs.takeWhile fun c => c.isDigit || c = '.').length
  let exponent := exponentLength (cs.drop digits)
  digits + exponent + suffixLength (cs.drop (digits + exponent))

/--
The number of characters of a name: parts of identifiers, and points before the beginning of one.
-/
def wordLength : List Char → Nat
  | [] => 0
  | [c] => if VariableName.isPart c then 1 else 0
  | c :: d :: cs =>
    if VariableName.isPart c || (c = '.' && VariableName.isStart d) then 1 + wordLength (d :: cs)
    else 0

/--
Whether a text is a word of lower case letters, in any case.
-/
def isWord (text : List Char) (word : String) : Bool := text.map Char.toLower = word.toList

def wordKind (text rest : List Char) : TokenKind :=
  if text = "and".toList then .conjunction
  else if text = "or".toList then .disjunction
  else if text = "not".toList then .negation
  else if isWord text "true" then .literal true
  else if isWord text "false" then .literal false
  else if (rest.dropWhile Text.isBlank).head? = some '(' then .function
  else .variable

/--
Whether a number begins with a character that stands before a text.
-/
def startsNumber (c : Char) (cs : List Char) : Bool :=
  c.isDigit || (c = '.' && cs.head?.any Char.isDigit)

/--
The number of characters of the token that begins with `c`, after `c`.
-/
def tailLength (c : Char) (cs : List Char) : Nat :=
  if startsNumber c cs then numberLength cs
  else if VariableName.isStart c then wordLength cs
  else if c = '*' ∧ cs.head? = some '*' then 1
  else 0

/--
The token that begins with `c`, and what follows it.
-/
def next (c : Char) (cs : List Char) : Token × List Char :=
  let n := tailLength c cs
  let text := c :: cs.take n
  let rest := cs.drop n
  let kind : TokenKind :=
    if startsNumber c cs then .number
    else if VariableName.isStart c then wordKind text rest
    else if c = '*' ∧ cs.head? = some '*' then .power
    else .symbol
  (⟨kind, text⟩, rest)

theorem length_next_le (c : Char) (cs : List Char) : (next c cs).2.length ≤ cs.length := by
  simp [next]

theorem text_next_append (c : Char) (cs : List Char) :
    (next c cs).1.text ++ (next c cs).2 = c :: cs := by
  simp [next]

def tokens : List Char → List Token
  | [] => []
  | c :: cs =>
    have := length_next_le c cs
    (next c cs).1 :: tokens (next c cs).2
termination_by cs => cs.length
decreasing_by simp; omega

theorem tokens_cons (c : Char) (cs : List Char) :
    tokens (c :: cs) = (next c cs).1 :: tokens (next c cs).2 := by
  rw [tokens]

/--
The tokens of a text are the text.
-/
theorem flatMap_text_tokens (cs : List Char) : (tokens cs).flatMap Token.text = cs := by
  fun_induction tokens cs with
  | case1 => rfl
  | case2 c cs _ ih => rw [List.flatMap_cons, ih, text_next_append]

def formula (t : Token) : List Char :=
  match t.kind with
  | .number | .function | .symbol => t.text
  | .conjunction => " && ".toList
  | .disjunction => " || ".toList
  | .negation => ['!']
  | .literal value => [if value then '1' else '0']
  | .variable => VariableName.mangle t.text
  | .power => ['^']

def isBoolean (t : Token) : Bool :=
  match t.kind with
  | .conjunction | .disjunction | .negation | .literal _ => true
  | .symbol => t.text.any fun c => ['<', '>', '=', '!', '&', '|'].contains c
  | _ => false

end Token

end Waveplan
