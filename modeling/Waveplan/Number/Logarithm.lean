/-!
This module contains the natural logarithm of `1 + x`, which loses nothing when `x` is small, and
the inverse hyperbolic functions that are computed with it.

`1 + x` is written as `2 ^ exponent * (1 + fraction)` with a small fraction. The logarithm of
`1 + fraction` is a series in `fraction / (2 + fraction)`, of which seven terms are as good as all.
-/

namespace Waveplan.Double

/--
The number `1 + x` as `2 ^ exponent * (1 + fraction)`, where `1 + fraction` lies between the square
roots of a half and of two.
-/
structure Successor where
  exponent : Float
  fraction : Float
  /-- What the sum has lost by rounding, relative to it. -/
  lost : Float

def Successor.of (x : Float) : Successor :=
  if -0.2928934097290039 < x && x < 0.4142136573791504 then
    ⟨0, x, 0⟩
  else
    let sum := 1 + x
    let lost := if 2 ≤ sum then 1 - (sum - x) else x - (sum - 1)
    let (mantissa, exponent) := sum.frExp
    if mantissa < 0.7071065902709961 then
      ⟨.ofInt (exponent - 1), 2 * mantissa - 1, lost / sum⟩
    else
      ⟨.ofInt exponent, mantissa - 1, lost / sum⟩

/--
The coefficients of the series beyond its first two terms, from the lowest power on. They are
those of `2 / 3, 2 / 5, …` but for corrections that stand in for the terms left out.
-/
def seriesCoefficients : List Float :=
  [0.6666666666666735, 0.3999999999940942, 0.2857142874366239, 0.22222198432149784,
    0.1818357216161805, 0.15313837699209373, 0.14798198605116586]

/--
The logarithm of two in two parts. The first one has so few digits that its multiples by exponents
are exact.
-/
def lnTwo : Float × Float := (0.6931471803691238, 1.9082149292705877e-10)

/--
The natural logarithm of `1 + x` for finite numbers above minus one.
-/
def Successor.ln (n : Successor) : Float :=
  let f := n.fraction
  let half := 0.5 * f * f
  let s := f / (2 + f)
  let z := s * s
  let tail := s * (half + seriesCoefficients.foldr (fun c sum => z * (c + sum)) 0)
  if n.exponent == 0 then
    f - (half - tail)
  else
    n.exponent * lnTwo.1 - ((half - (tail + (n.exponent * lnTwo.2 + n.lost))) - f)

/--
The natural logarithm of `1 + x`.
-/
def lnSuccessor (x : Float) : Float :=
  if x ≤ -1 || !x.isFinite then (1 + x).log else (Successor.of x).ln

/--
The inverse hyperbolic tangent.
-/
def artanh (x : Float) : Float := 0.5 * lnSuccessor (2 * x / (1 - x))

/--
The inverse hyperbolic sine. Of large numbers it is the logarithm of their double.
-/
def arsinh (x : Float) : Float :=
  let a := x.abs
  let value :=
    if 268435456 < a then a.log + 0.6931471805599453
    else
      let b := 1 / a
      lnSuccessor (a + a / ((1 + b * b).sqrt + b))
  if x == 0 then x else if x < 0 then -value else value

end Waveplan.Double
