import Waveplan.Word

/-!
This module contains the arithmetic that samples, times and expressions are computed with.
Everything above it is written over an arbitrary `Number`, so that the same definitions run on
double precision numbers and can be studied over exact ones.
-/

namespace Waveplan

/--
The numbers of a shot: values of channels, times and magnitudes of quantities.
-/
class Number (α : Type) extends Add α, Sub α, Mul α, Div α, Neg α, BEq α where
  /-- The number nearest to a count. -/
  ofNat : Nat → α
  /-- The number nearest to `digits * 10 ^ exponent`. -/
  ofDecimal (digits : Nat) (exponent : Int) : α
  infinity : α
  nan : α
  lt : α → α → Bool
  le : α → α → Bool
  /-- The order points are sorted by: total, and equal to `le` on ordinary numbers. -/
  totalLe : α → α → Bool
  isFinite : α → Bool
  abs : α → α
  /-- The first tick that is not before a time counted in ticks. -/
  ceilTick : α → Nat
  /-- The tick nearest to a time counted in ticks. -/
  roundTick : α → Int
  /-- The shortest text that identifies the number. -/
  text : α → String

namespace Number

variable {α : Type} [Number α]

def zero : α := ofNat 0

def one : α := ofNat 1

/-- One for `true` and zero for `false`. -/
def ofBool (b : Bool) : α := if b then one else zero

def isNonzero (x : α) : Bool := !(x == zero)

@[simp]
theorem ofBool_true : (ofBool true : α) = one := rfl

@[simp]
theorem ofBool_false : (ofBool false : α) = zero := rfl

end Number

/--
The functions of one argument that expressions can call.
-/
inductive Elementary where
  | int | ceil | floor | abs | sign
  | sin | cos | tan | asin | acos | atan
  | sinh | cosh | tanh | asinh | acosh | atanh
  | round
  deriving DecidableEq, Repr

/--
Numbers on which whole expressions can be evaluated.
-/
class Analysis (α : Type) extends Number α where
  elementary : Elementary → α → α
  ln : α → α
  log2 : α → α
  log10 : α → α
  /-- The remainder of a division that rounds towards zero. -/
  remainder : α → α → α
  power : α → α → α
  e : α
  pi : α

end Waveplan
