import Waveplan.Number
import Waveplan.Number.Logarithm
import Waveplan.Number.Shortest

/-!
This module contains double precision numbers as the `Number`s of a shot, and how they are written.
-/

namespace Waveplan.Double

open Shortest (Binary Decimal)

inductive Parts where
  | nan
  | infinite (negative : Bool)
  | zero (negative : Bool)
  | finite (negative : Bool) (magnitude : Binary)
  deriving DecidableEq, Repr

def parts (x : Float) : Parts :=
  let bits := x.toBits.toNat
  let negative : Bool := Nat.pow 2 63 ≤ bits
  let exponent : Nat := bits / Nat.pow 2 52 % 2048
  let fraction : Nat := bits % Nat.pow 2 52
  if exponent = 2047 then
    if fraction = 0 then .infinite negative else .nan
  else if exponent = 0 then
    if fraction = 0 then .zero negative else .finite negative ⟨fraction, -1074, false⟩
  else
    .finite negative ⟨Nat.pow 2 52 + fraction, exponent - 1075, fraction = 0 && exponent ≠ 1⟩

def signText (negative : Bool) : String := if negative then "-" else ""

/--
The shortest digits that identify the number, never with an exponent, and without a point if it is
whole. The sign of zero is kept.
-/
def text (x : Float) : String :=
  match parts x with
  | .nan => "NaN"
  | .infinite negative => signText negative ++ "inf"
  | .zero negative => signText negative ++ "0"
  | .finite negative b => signText negative ++ (Shortest.ofBinary .larger b).positional

/--
The number as a JSON value: always with a point or an exponent, the exponent being used from
`1e+16` on and below `1e-5`. JSON has no text for a number that is not finite.
-/
def jsonText (x : Float) : String :=
  match parts x with
  | .nan | .infinite _ => "null"
  | .zero negative => signText negative ++ "0.0"
  | .finite negative b =>
    let d := Shortest.ofBinary .even b
    let body :=
      if -5 < d.point ∧ d.point ≤ 16 then
        if 0 ≤ d.exponent then d.positional ++ ".0" else d.positional
      else
        d.scientific
    signText negative ++ body

/--
A key that orders all doubles by sign and magnitude, minus zero being below zero.
-/
def orderKey (x : Float) : Int :=
  let bits := x.toBits.toNat
  if bits < Nat.pow 2 63 then bits else Nat.pow 2 63 - bits - 1

/--
The nearest whole number, a half going to the even neighbour.
-/
def roundEven (x : Float) : Float :=
  if x - x.floor == 0.5 then (x / 2).round * 2 else x.round

/--
The number without its fraction.
-/
def truncate (x : Float) : Float := if x < 0 then x.ceil else x.floor

/--
The exact remainder of the division that rounds towards zero, with the sign of the dividend.
-/
def remainder (x y : Float) : Float :=
  match parts x, parts y with
  | .finite negative a, .finite _ b =>
    let low := min a.exponent b.exponent
    let scaled (c : Binary) : Nat := c.significand * Nat.pow 2 (c.exponent - low).toNat
    let rest := (Float.ofNat (scaled a % scaled b)).scaleB low
    if negative then -rest else rest
  | .zero _, .finite _ _ | .zero _, .infinite _ | .finite _ _, .infinite _ => x
  | _, _ => 0.0 / 0.0

/--
One with the sign of the number; a NaN stays a NaN.
-/
def sign (x : Float) : Float :=
  match parts x with
  | .nan => x
  | .infinite negative | .zero negative | .finite negative _ => if negative then -1 else 1

def infinity : Float := 1.0 / 0.0

def nan : Float := 0.0 / 0.0

/--
The first whole number that is not below `m * 2 ^ e`.
-/
def ceilBinary (m : Nat) (e : Int) : Nat :=
  if 0 ≤ e then m * Nat.pow 2 e.toNat
  else (m + (Nat.pow 2 (-e).toNat - 1)) / Nat.pow 2 (-e).toNat

/--
The first whole number that is not below the number, as a machine word: what lies outside of the
words becomes the nearest one, and a NaN becomes zero.
-/
def ceilTick (x : Float) : Nat :=
  match x.toModel.unpack with
  | .finite .positive m e _ => min (wordModulus - 1) (ceilBinary m e)
  | .infinity .positive => wordModulus - 1
  | _ => 0

/--
The number nearest to `digits * 10 ^ exponent`. Numbers beyond the range of doubles are told by
their count of digits, so that no power of ten with a huge exponent is computed.
-/
def ofDecimal (digits : Nat) (exponent : Int) : Float :=
  let point := (Nat.log2 digits : Int) * 3 / 10 + exponent
  if digits = 0 ∨ point < -400 then 0
  else if 400 < point then infinity
  else OfScientific.ofScientific digits (decide (exponent < 0)) exponent.natAbs

/--
The number nearest to a count. Counts that fit a machine word are converted directly.
-/
def ofNat (n : Nat) : Float := if n < wordModulus then n.toUInt64.toFloat else ofDecimal n 0

def elementary : Elementary → Float → Float
  | .int => truncate
  | .ceil => Float.ceil
  | .floor => Float.floor
  | .abs => Float.abs
  | .sign => sign
  | .sin => Float.sin
  | .cos => Float.cos
  | .tan => Float.tan
  | .asin => Float.asin
  | .acos => Float.acos
  | .atan => Float.atan
  | .sinh => Float.sinh
  | .cosh => Float.cosh
  | .tanh => Float.tanh
  | .asinh => arsinh
  | .acosh => Float.acosh
  | .atanh => artanh
  | .round => Float.round

end Double

instance : Number Float where
  ofNat := Double.ofNat
  ofDecimal := Double.ofDecimal
  infinity := Double.infinity
  nan := Double.nan
  lt x y := x < y
  le x y := x ≤ y
  totalLe x y := Double.orderKey x ≤ Double.orderKey y
  isFinite := Float.isFinite
  abs := Float.abs
  ceilTick := Double.ceilTick
  roundTick x := (Double.roundEven x).toInt64.toInt
  text := Double.text

instance : Analysis Float where
  elementary := Double.elementary
  ln := Float.log
  log2 := Float.log2
  log10 := Float.log10
  remainder := Double.remainder
  power := Float.pow
  e := 2.718281828459045
  pi := 3.141592653589793

end Waveplan
