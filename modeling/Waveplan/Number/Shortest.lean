/-!
This module contains the choice of the decimal digits that identify a double: among the decimals
that round to it the ones with the fewest digits, and of these the nearest. `Tie` says which of two
equally near ones is taken.

The interval of the reals that round to the double is compared with decimals by exact natural
number arithmetic. `ofBinary` tries one, two, … digits, and on each grid only the two neighbours
of the double.
-/

namespace Waveplan.Shortest

/--
A positive double `significand * 2 ^ exponent`.
-/
structure Binary where
  significand : Nat
  exponent : Int
  /-- The gap to the next smaller double is half of the gap to the next larger one. -/
  isPowerBoundary : Bool
  deriving DecidableEq, Repr

/--
The decimal `digits * 10 ^ exponent`.
-/
structure Decimal where
  digits : Nat
  exponent : Int
  deriving DecidableEq, Repr

/--
The reals that round to a double, as fractions over one denominator.
-/
structure Interval where
  low : Nat
  value : Nat
  high : Nat
  denominator : Nat
  /-- The ends themselves round to the double. -/
  closed : Bool
  deriving DecidableEq, Repr

def Binary.interval (b : Binary) : Interval :=
  let up := Nat.pow 2 (b.exponent - 2).toNat
  { low := (4 * b.significand - if b.isPowerBoundary then 1 else 2) * up
    value := 4 * b.significand * up
    high := (4 * b.significand + 2) * up
    denominator := Nat.pow 2 (2 - b.exponent).toNat
    closed := b.significand % 2 = 0 }

/--
Whether `digits * 10 ^ exponent` rounds to the double.
-/
def Interval.contains (i : Interval) (d : Decimal) : Bool :=
  let down := Nat.pow 10 (-d.exponent).toNat
  let scaled := d.digits * Nat.pow 10 d.exponent.toNat * i.denominator
  if i.closed then
    i.low * down ≤ scaled && scaled ≤ i.high * down
  else
    i.low * down < scaled && scaled < i.high * down

/--
The whole part of the value counted in units of `10 ^ exponent`.
-/
def Interval.floorAt (i : Interval) (exponent : Int) : Nat :=
  i.value * Nat.pow 10 (-exponent).toNat / (i.denominator * Nat.pow 10 exponent.toNat)

/--
Which of two decimals is taken that are equally near.
-/
inductive Tie where
  | larger
  | even
  deriving DecidableEq, Repr

/--
Whether `digits` units are taken for the value rather than `digits + 1` units, which is the case if
they are nearer.
-/
def Interval.takesBelow (i : Interval) (tie : Tie) (digits : Nat) (exponent : Int) : Bool :=
  let value := 2 * i.value * Nat.pow 10 (-exponent).toNat
  let middle := (2 * digits + 1) * Nat.pow 10 exponent.toNat * i.denominator
  value < middle || (value = middle && tie = .even && digits % 2 = 0)

/--
The least `k` with `value < 10 ^ k`, searched upwards from a bound that is too small.
-/
def Interval.magnitude (i : Interval) (start : Int) : Nat → Int
  | 0 => start
  | fuel + 1 =>
    if i.value * Nat.pow 10 (-start).toNat < i.denominator * Nat.pow 10 start.toNat then start
    else i.magnitude (start + 1) fuel

/--
The decimal with `count` digits that rounds to the value, of two the nearer.
-/
def Interval.withDigits (i : Interval) (tie : Tie) (magnitude : Int) (count : Nat) :
    Option Decimal :=
  let exponent := magnitude - count
  let below : Decimal := ⟨i.floorAt exponent, exponent⟩
  let above : Decimal := ⟨below.digits + 1, exponent⟩
  match i.contains below, i.contains above with
  | true, true => some (if i.takesBelow tie below.digits exponent then below else above)
  | true, false => some below
  | false, true => some above
  | false, false => none

/--
Move zeros at the end of the digits into the exponent.
-/
def Decimal.strip (d : Decimal) : Nat → Decimal
  | 0 => d
  | fuel + 1 =>
    if d.digits ≠ 0 ∧ d.digits % 10 = 0 then Decimal.strip ⟨d.digits / 10, d.exponent + 1⟩ fuel
    else d

/--
The shortest decimal that identifies a positive double.
-/
def ofBinary (tie : Tie) (b : Binary) : Decimal :=
  let i := b.interval
  let bits : Int := Nat.log2 b.significand + b.exponent
  -- `3 / 10` is below the decimal logarithm of two for positive and above for negative powers
  let start := if 0 ≤ bits then bits * 3 / 10 else bits * 31 / 100 - 1
  let magnitude := i.magnitude start 40
  let exact : Decimal :=
    ⟨b.significand * Nat.pow 2 b.exponent.toNat * Nat.pow 5 (-b.exponent).toNat, min b.exponent 0⟩
  let found := (List.range 17).findSome? fun n => i.withDigits tie magnitude (n + 1)
  (found.getD exact).strip 400

/--
The decimal digits of a number, without its trailing zeros.
-/
def Decimal.text (d : Decimal) : String := toString d.digits

/--
The position of the point, counted from the first digit: `0.12` has point 0, `12.3` point 2.
-/
def Decimal.point (d : Decimal) : Int := d.text.length + d.exponent

/--
A decimal without exponent, and without a point if it is whole.
-/
def Decimal.positional (d : Decimal) : String :=
  let digits := d.text
  let point := d.point
  if point ≤ 0 then
    "0." ++ "".pushn '0' (-point).toNat ++ digits
  else if digits.length ≤ point then
    digits.pushn '0' (point - digits.length).toNat
  else
    (digits.take point.toNat).toString ++ "." ++ (digits.drop point.toNat).toString

/--
One digit, a point if more digits follow, and a power of ten with its sign.
-/
def Decimal.scientific (d : Decimal) : String :=
  let digits := d.text
  let rest := (digits.drop 1).toString
  let mantissa := (digits.take 1).toString ++ (if rest.isEmpty then "" else "." ++ rest)
  mantissa ++ (if 1 ≤ d.point then "e+" else "e") ++ toString (d.point - 1)

end Waveplan.Shortest
