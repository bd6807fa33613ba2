import Waveplan.Number

/-!
This module contains how numbers are read from text: an optional sign, then decimal digits with an
optional point and exponent, or the name of a number that is not finite.
-/

namespace Waveplan

/--
The magnitude that a text without sign stands for.
-/
inductive Magnitude where
  | decimal (digits : Nat) (exponent : Int)
  | infinity
  | nan
  deriving DecidableEq, Repr

namespace Magnitude

def digitsValue (digits : List Char) : Nat :=
  digits.foldl (fun n c => 10 * n + (c.toNat - '0'.toNat)) 0

/--
The exponent after the letter `e`: an optional sign and at least one digit.
-/
def readExponent (cs : List Char) : Option Int :=
  let (negative, digits) := match cs with
    | '-' :: rest => (true, rest)
    | '+' :: rest => (false, rest)
    | rest => (false, rest)
  if digits ≠ [] ∧ digits.all Char.isDigit then
    some (if negative then -(digitsValue digits) else digitsValue digits)
  else
    none

/--
Digits with an optional point and exponent, at least one digit standing before the exponent.
-/
def readDecimal (cs : List Char) : Option Magnitude :=
  let whole := cs.takeWhile Char.isDigit
  let afterWhole := cs.dropWhile Char.isDigit
  let (fraction, rest) := match afterWhole with
    | '.' :: more => (more.takeWhile Char.isDigit, more.dropWhile Char.isDigit)
    | more => ([], more)
  if whole = [] ∧ fraction = [] then none
  else
    let finish (exponent : Int) : Magnitude :=
      .decimal (digitsValue (whole ++ fraction)) (exponent - fraction.length)
    match rest with
    | [] => some (finish 0)
    | c :: exponent => if c = 'e' ∨ c = 'E' then (readExponent exponent).map finish else none

def read (cs : List Char) : Option Magnitude :=
  let word := String.ofList (cs.map Char.toLower)
  if word = "inf" ∨ word = "infinity" then some .infinity
  else if word = "nan" then some .nan
  else readDecimal cs

def value {α : Type} [Number α] : Magnitude → α
  | .decimal digits exponent => Number.ofDecimal digits exponent
  | .infinity => Number.infinity
  | .nan => Number.nan

end Magnitude

def Number.read {α : Type} [Number α] (cs : List Char) : Option α :=
  match cs with
  | '-' :: rest => (Magnitude.read rest).map fun m => -m.value
  | '+' :: rest => (Magnitude.read rest).map Magnitude.value
  | rest => (Magnitude.read rest).map Magnitude.value

end Waveplan
