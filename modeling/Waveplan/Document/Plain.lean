import Waveplan.Document.Basic
import Waveplan.Number.Literal
import Waveplan.Text.Digit

/-!
This module contains what scalars without quotes stand for: nothing, a boolean, a number, or the
text itself.
-/

namespace Waveplan

namespace PlainInteger

/--
The number that digits stand for in a base.
-/
def natural? (base : Nat) (digits : List Char) : Option Nat :=
  if digits = [] then none
  else
    digits.foldlM
      (fun n c =>
        match Text.digitValue? c with
        | some d => if d < base then some (base * n + d) else none
        | none => none)
      0

/--
A number without sign: decimal, or in the base that its first two characters name. Zeros do not
stand before other decimal digits.
-/
def unsigned? (cs : List Char) : Option Nat :=
  match cs with
  | '0' :: 'x' :: digits => natural? 16 digits
  | '0' :: 'o' :: digits => natural? 8 digits
  | '0' :: 'b' :: digits => natural? 2 digits
  | '0' :: _ :: _ => none
  | digits => natural? 10 digits

/--
A number with an optional sign that fits 128 bits.
-/
def read (cs : List Char) : Option Int :=
  match cs with
  | '-' :: rest =>
    match unsigned? rest with
    | some n => if n ≤ Nat.pow 2 127 then some (-n) else none
    | none => none
  | '+' :: rest => bounded (unsigned? rest)
  | rest => bounded (unsigned? rest)
where
  bounded : Option Nat → Option Int
    | some n => if n < Nat.pow 2 128 then some n else none
    | none => none

end PlainInteger

/--
Whether a text consists of digits, the first of several being zero. Such a text is no number.
-/
def isZeroPadded (cs : List Char) : Bool :=
  let digits := match cs with
    | '-' :: rest => rest
    | '+' :: rest => rest
    | rest => rest
  match digits with
  | '0' :: c :: rest => (c :: rest).all Char.isDigit
  | _ => false

/--
A number with a point, an exponent or too many digits for an integer. Numbers beyond the range of
the finite ones are texts; infinity and NaN have words of their own.
-/
def PlainFloat.read {α : Type} [Number α] (cs : List Char) : Option α :=
  let word := String.ofList cs
  if [".inf", ".Inf", ".INF", "+.inf", "+.Inf", "+.INF"].contains word then some Number.infinity
  else if ["-.inf", "-.Inf", "-.INF"].contains word then some (-Number.infinity)
  else if [".nan", ".NaN", ".NAN"].contains word then some Number.nan
  else
    match Number.read cs with
    | some x => if Number.isFinite x then some x else none
    | none => none

def Datum.ofPlain {α : Type} [Number α] (written : String) : Datum α :=
  if ["", "~", "null", "Null", "NULL"].contains written then .null
  else if ["true", "True", "TRUE"].contains written then .bool true
  else if ["false", "False", "FALSE"].contains written then .bool false
  else
    let cs := written.toList
    match PlainInteger.read cs with
    | some n => .integer n
    | none =>
      if isZeroPadded cs then .text
      else
        match PlainFloat.read cs with
        | some x => .float x
        | none => .text

end Waveplan
