import Waveplan.Formula.Error
import Waveplan.Formula.Term
import Waveplan.Number.Literal

/-!
This module contains how formulas are read. Every reader takes the characters that are left and
returns what it has read together with the rest.
-/

namespace Waveplan.Formula

/--
The most bytes a formula may have.
-/
def lengthLimit : Nat := 4096

/--
How deeply signs, brackets and arguments may be nested.
-/
def depthLimit : Nat := 32

def isSpace (c : Char) : Bool := c = ' ' || c = '\n' || c = '\t' || c = '\r'

def skipSpaces (cs : List Char) : List Char := cs.dropWhile isSpace

/--
The characters of a number: digits and points, an exponent whose sign follows the letter, or the
name of a number that is not finite.
-/
structure Scan where
  /-- The characters of the number, the last one first. -/
  text : List Char := []
  /-- A sign may follow. -/
  sign : Bool := true
  /-- The name of a number that is not finite may follow. -/
  special : Bool := true
  /-- A suffix may follow the number. -/
  suffix : Bool := true
  /-- A digit, a point or a name has been read. -/
  found : Bool := false

/--
The longest text of a number at the beginning, and what follows it.
-/
def scanNumber (s : Scan) : List Char → Scan × List Char
  | [] => (s, [])
  | c :: rest =>
    if c.isDigit || c = '.' then
      scanNumber { s with text := c :: s.text, sign := false, special := false, found := true } rest
    else if s.sign && (c = '+' || c = '-') then
      scanNumber { s with text := c :: s.text, sign := false } rest
    else if s.found && (c = 'e' || c = 'E') then
      scanNumber { s with text := c :: s.text, sign := true, suffix := false } rest
    else if s.special then
      match c, rest with
      | 'N', 'a' :: 'N' :: after =>
        ({ s with text := 'N' :: 'a' :: 'N' :: s.text, suffix := false, found := true }, after)
      | 'i', 'n' :: 'f' :: after =>
        ({ s with text := 'f' :: 'n' :: 'i' :: s.text, suffix := false, found := true }, after)
      | _, _ => (s, c :: rest)
    else
      (s, c :: rest)

/--
The power of ten that a suffix stands for.
-/
def suffixExponent? : Char → Option String
  | 'k' | 'K' => some "e3"
  | 'M' => some "e6"
  | 'G' => some "e9"
  | 'T' => some "e12"
  | 'm' => some "e-3"
  | 'u' | 'µ' => some "e-6"
  | 'n' => some "e-9"
  | 'p' => some "e-12"
  | _ => none

/--
A number with an optional suffix, if the text begins with one.
-/
def readNumber {α : Type} [Number α] (cs : List Char) :
    Except ParseError (Option (α × List Char)) :=
  let (scan, rest) := scanNumber {} (skipSpaces cs)
  if !scan.found then .ok none
  else
    let (text, rest) := match rest with
      | [] => (scan.text.reverse, [])
      | c :: after =>
        match if scan.suffix then suffixExponent? c else none with
        | some exponent => (scan.text.reverse ++ exponent.toList, after)
        | none => (scan.text.reverse, c :: after)
    match Number.read text with
    | some x => .ok (some (x, rest))
    | none => .error (.invalidNumber (String.ofList text))

def readOperator (cs : List Char) : Option (Operator × List Char) :=
  match skipSpaces cs with
  | '+' :: rest => some (.add, rest)
  | '-' :: rest => some (.sub, rest)
  | '*' :: rest => some (.mul, rest)
  | '/' :: rest => some (.div, rest)
  | '%' :: rest => some (.mod, rest)
  | '^' :: rest => some (.pow, rest)
  | '<' :: '=' :: rest => some (.compare .le, rest)
  | '<' :: rest => some (.compare .lt, rest)
  | '>' :: '=' :: rest => some (.compare .ge, rest)
  | '>' :: rest => some (.compare .gt, rest)
  | '=' :: '=' :: rest => some (.compare .eq, rest)
  | '!' :: '=' :: rest => some (.compare .ne, rest)
  | 'o' :: 'r' :: rest => some (.or, rest)
  | '|' :: '|' :: rest => some (.or, rest)
  | 'a' :: 'n' :: 'd' :: rest => some (.and, rest)
  | '&' :: '&' :: rest => some (.and, rest)
  | _ => none

def isNameStart (c : Char) : Bool := c.isAlpha || c = '_'

def isNamePart (c : Char) : Bool := c.isAlphanum || c = '_'

def elementary? : String → Option Elementary
  | "int" => some .int
  | "ceil" => some .ceil
  | "floor" => some .floor
  | "abs" => some .abs
  | "sign" => some .sign
  | "sin" => some .sin
  | "cos" => some .cos
  | "tan" => some .tan
  | "asin" => some .asin
  | "acos" => some .acos
  | "atan" => some .atan
  | "sinh" => some .sinh
  | "cosh" => some .cosh
  | "tanh" => some .tanh
  | "asinh" => some .asinh
  | "acosh" => some .acosh
  | "atanh" => some .atanh
  | _ => none

/--
The call of a function. Built in functions check the number of their arguments.
-/
def mkCall {α : Type} [Analysis α] (name : String) (arguments : List (Chain α)) :
    Except ParseError (Term α) :=
  match elementary? name with
  | some f =>
    match arguments with
    | [x] => .ok (.elementary f x)
    | _ => .error (.wrongArguments (name ++ ": expected one arg"))
  | none =>
    match name, arguments with
    | "log", [x] => .ok (.log (.number (Number.ofNat 10)) x)
    | "log", [base, x] => .ok (.log base x)
    | "log", _ => .error (.wrongArguments "expected log(x) or log(base,x)")
    | "round", [x] => .ok (.round (.number Number.one) x)
    | "round", [modulus, x] => .ok (.round modulus x)
    | "round", _ => .error (.wrongArguments "round: expected round(x) or round(modulus,x)")
    | "min", x :: rest => .ok (.extremum .min x (.ofList rest))
    | "min", [] => .error (.wrongArguments "min: expected one or more args")
    | "max", x :: rest => .ok (.extremum .max x (.ofList rest))
    | "max", [] => .error (.wrongArguments "max: expected one or more args")
    | "e", [] => .ok (.number Analysis.e)
    | "e", _ => .error (.wrongArguments "e: expected no args")
    | "pi", [] => .ok (.number Analysis.pi)
    | "pi", _ => .error (.wrongArguments "pi: expected no args")
    | _, _ => .ok (.call name (.ofList arguments))

/--
What closes a bracket, and how its absence is reported.
-/
def closerOf : Char → Option (Char × String)
  | '(' => some (')', "parentheses")
  | '[' => some (']', "square brackets")
  | _ => none

/--
Go on to the next argument of a function: on the left what begins with it, or on the right what
follows the bracket that closes the arguments.
-/
def nextArgument (name : String) (closer : Char) (isFirst : Bool) (cs : List Char) :
    Except ParseError (List Char ⊕ List Char) :=
  match skipSpaces cs with
  | [] => .error (.unfinished name)
  | c :: rest =>
    if c = closer then .ok (.inr rest)
    else if isFirst then .ok (.inl (c :: rest))
    else if c = ',' || c = ';' then .ok (.inl rest)
    else .error (.expected "',' or ';'")

mutual

def readChain {α : Type} [Analysis α] (fuel depth : Nat) (cs : List Char) :
    Except ParseError (Chain α × List Char) :=
  match fuel with
  | 0 => .error .tooDeep
  | fuel + 1 =>
    if depthLimit < depth then .error .tooDeep
    else do
      let (t, rest) ← readTerm fuel depth cs
      match readOperator rest with
      | none => .ok (.last t, rest)
      | some (op, rest) =>
        let (chain, rest) ← readChain fuel depth rest
        .ok (.more t op chain, rest)

def readTerm {α : Type} [Analysis α] (fuel depth : Nat) (cs : List Char) :
    Except ParseError (Term α × List Char) :=
  match fuel with
  | 0 => .error .tooDeep
  | fuel + 1 =>
    if depthLimit < depth then .error .tooDeep
    else do
      match ← readNumber cs with
      | some (x, rest) => .ok (.number x, rest)
      | none =>
        match skipSpaces cs with
        | [] => .error (.unfinished "value")
        | c :: rest =>
          if c = '+' then
            readTerm fuel (depth + 1) rest
          else if c = '-' then do
            let (t, rest) ← readTerm fuel (depth + 1) rest
            .ok (.minus t, rest)
          else if c = '!' then do
            let (t, rest) ← readTerm fuel (depth + 1) rest
            .ok (.not t, rest)
          else
            match closerOf c with
            | some (closer, what) => do
              let (chain, rest) ← readChain fuel (depth + 1) rest
              match skipSpaces rest with
              | [] => .error (.unfinished what)
              | d :: rest =>
                if d = closer then .ok (.group chain, rest)
                else .error (.expected closer.toString)
            | none =>
              if isNameStart c then
                let name := String.ofList (c :: rest.takeWhile isNamePart)
                let rest := skipSpaces (rest.dropWhile isNamePart)
                match rest with
                | [] => .ok (.variable name, rest)
                | d :: inner =>
                  match closerOf d with
                  | none => .ok (.variable name, rest)
                  | some (closer, _) =>
                    if name = "print" then do
                      let (items, rest) ← readItems fuel depth closer true inner
                      .ok (.print items, rest)
                    else do
                      let (arguments, rest) ← readArguments fuel depth name closer true inner
                      let t ← mkCall name arguments
                      .ok (t, rest)
              else
                .error .invalidValue

def readArguments {α : Type} [Analysis α] (fuel depth : Nat) (name : String) (closer : Char)
    (isFirst : Bool) (cs : List Char) : Except ParseError (List (Chain α) × List Char) :=
  match fuel with
  | 0 => .error .tooDeep
  | fuel + 1 =>
    match nextArgument name closer isFirst cs with
    | .error reason => .error reason
    | .ok (.inr rest) => .ok ([], rest)
    | .ok (.inl rest) => do
      let (first, rest) ← readChain fuel (depth + 1) rest
      let (others, rest) ← readArguments fuel depth name closer false rest
      .ok (first :: others, rest)

/--
What is to be shown up to the bracket that closes it. Values in it count as nested twice.
-/
def readItems {α : Type} [Analysis α] (fuel depth : Nat) (closer : Char) (isFirst : Bool)
    (cs : List Char) : Except ParseError (Items α × List Char) :=
  match fuel with
  | 0 => .error .tooDeep
  | fuel + 1 =>
    match nextArgument "print" closer isFirst cs with
    | .error reason => .error reason
    | .ok (.inr rest) => .ok (.nil, rest)
    | .ok (.inl rest) =>
      match skipSpaces rest with
      | '"' :: text =>
        match text.dropWhile (· ≠ '"') with
        | [] => .error (.unfinished "string")
        | _ :: rest => do
          let (others, rest) ← readItems fuel depth closer false rest
          .ok (.text (String.ofList (text.takeWhile (· ≠ '"'))) others, rest)
      | _ => do
        let (first, rest) ← readChain fuel (depth + 2) rest
        let (others, rest) ← readItems fuel depth closer false rest
        .ok (.chain first others, rest)

end

def parse {α : Type} [Analysis α] (text : String) : Except ParseError (Chain α) := do
  if lengthLimit < text.utf8ByteSize then
    .error .tooLong
  else
    let cs := text.toList
    let (chain, rest) ← readChain (2 * cs.length + 4) 0 cs
    match skipSpaces rest with
    | [] => .ok chain
    | rest => .error (.unparsed (String.ofList rest))

end Waveplan.Formula
