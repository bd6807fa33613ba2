import Waveplan.Formula.Term

/-!
This module contains the operations of formulas on numbers.
-/

namespace Waveplan.Formula

variable {α : Type} [Analysis α]

/--
The largest difference between numbers that count as equal.
-/
def tolerance : α := Number.one / Number.ofNat (Nat.pow 2 49)

def close (x y : α) : Bool := Number.le (Number.abs (x - y)) tolerance

def apart (x y : α) : Bool := Number.lt tolerance (Number.abs (x - y))

def Comparison.holds (c : Comparison) (x y : α) : Bool :=
  match c with
  | .lt => Number.lt x y
  | .le => Number.le x y
  | .gt => Number.lt y x
  | .ge => Number.le y x
  | .eq => close x y
  | .ne => apart x y

/--
The logarithm in a base, the common bases having functions of their own.
-/
def logarithm (base x : α) : α :=
  if close base (Number.ofNat 2) then Analysis.log2 x
  else if close base (Number.ofNat 10) then Analysis.log10 x
  else Analysis.ln x / Analysis.ln base

def roundTo (modulus x : α) : α := Analysis.elementary .round (x / modulus) * modulus

/--
The smaller or the larger of two numbers. A number that equals nothing is neither.
-/
def Extremum.choose (which : Extremum) (x y : α) : α :=
  if !(x == x) || !(y == y) then Number.nan
  else match which with
    | .min => if Number.lt x y then x else y
    | .max => if Number.lt y x then x else y

/--
The smallest or the largest of some numbers. Of two numbers that cannot be compared the first one
is kept.
-/
def Extremum.of (which : Extremum) (x : α) (xs : List α) : α :=
  let better (x y : α) : α :=
    match which with
    | .min => if Number.lt y x then y else x
    | .max => if Number.lt x y then y else x
  xs.foldl better x

end Waveplan.Formula
