import Scheme.Number.Polynomial

/-!
# Exponential, logarithm and hyperbolic functions of real numbers

Each function has one way of approximation, and every step is a rounded operation of double
precision, so a result is determined to its last bit.

* `Binary64.exp`: `2^k · e^r` with `r` a small rest; the exponential of `r/16` is squared four
  times;
* `Binary64.log`: `k · ln 2 + ln (1 + f)` with a mantissa `1 + f` near one;
* `Binary64.log2`, `Binary64.log10`: other bases, from the natural logarithm;
* `Binary64.sinh`, `Binary64.cosh`, `Binary64.tanh`: from the exponential, and near zero as
  quotients of polynomials.
-/

namespace Scheme.Binary64

/-- The natural logarithm of two. -/
def ln2 : Float := 0.693147180559945309417232121458176568

/-- The natural logarithm of ten. -/
def ln10 : Float := 2.30258509299404568401799145468436421

/-- The binary logarithm of `e`. -/
def log2e : Float := 1.44269504088896340735992468100189214

/-- The decimal logarithm of `e`. -/
def log10e : Float := 0.434294481903251827651128918916605082

/-! ### Exponential -/

/-- The leading bits of `ln 2`. -/
def expLn2High : Float := 0.69314718055966295651160180568695068359375

/-- The rest of `ln 2` beyond `expLn2High`. -/
def expLn2Low : Float := 0.28235290563031577122588448175013436025525412068e-12

/-- The coefficients of `(e^r - 1) / r`. -/
def expSeries : List Float :=
  [2.4801587301587301587e-5, 1.9841269841269841270e-4, 1.3888888888888888889e-3,
    8.3333333333333333333e-3, 4.1666666666666666667e-2, 1.6666666666666666667e-1, 0.5, 1.0]

/-- From `y = e^r - 1` to `e^(2 r) - 1`. -/
def doubleArgument (y : Float) : Float := y * (y + 2)

/-- The exponential of a number of at most `ln 2 / 2`, by the series at a sixteenth of it. -/
def expSmall (r : Float) : Float :=
  let part := r * 0.0625
  let y := doubleArgument (doubleArgument (doubleArgument (part * hornerFused expSeries part)))
  mulAdd y (y + 2) 1

/-- The exponential, as `2^k` times a factor around one.  The power of two must itself be finite, so
the result is infinite already where `k`, the nearest integer to `x / ln 2`, reaches 1024. -/
def exp (x : Float) : Float :=
  if x.isNaN then x
  else if x > 710 then infinity false
  else if x < -800 then 0
  else
    let k := nearestInt (x * log2e)
    if k ≥ 1024 then infinity false
    else
      let back := ofRat (-k)
      scale (expSmall (mulAdd back expLn2Low (mulAdd back expLn2High x))) k

/-! ### Logarithms -/

/-- The leading bits of `ln 2`, few enough that their product with an exponent is exact. -/
def logLn2High : Float := 6.93147180369123816490e-01

/-- The rest of `ln 2` beyond `logLn2High`. -/
def logLn2Low : Float := 1.90821492927058770002e-10

/-- The coefficients of the odd terms of the logarithm's series. -/
def logOddSeries : List Float :=
  [1.479819860511658591e-01, 1.818357216161805012e-01, 2.857142874366239149e-01,
    6.666666666666735130e-01]

/-- The coefficients of the even terms of the logarithm's series. -/
def logEvenSeries : List Float :=
  [1.531383769920937332e-01, 2.222219843214978396e-01, 3.999999999940941908e-01]

/-- `k · ln 2 + ln (1 + f)`, for `1 + f` between the square roots of one half and of two. -/
def logSum (k f : Float) : Float :=
  let s := f / (2 + f)
  let s2 := s * s
  let s4 := s2 * s2
  let series := s2 * horner logOddSeries s4 + s4 * horner logEvenSeries s4
  let halfSquare := 0.5 * f * f
  k * logLn2High - ((halfSquare - (s * (halfSquare + series) + k * logLn2Low)) - f)

/-- The natural logarithm of a positive number with the given bits.  The mantissa is always read
with its leading bit, also below the least normal number. -/
def logOfBits (bits : Nat) : Float :=
  let fraction := ofBits false (1022 * twoPow 52 + bits % twoPow 52)
  let exponent : Int := (bits / twoPow 52 : Nat) - 1022
  if fraction ≤ 0.707106781186547524401 then logSum (ofRat (exponent - 1)) (fraction * 2 - 1)
  else logSum (ofRat exponent) (fraction - 1)

/-- The natural logarithm, negatively infinite at zero; negative numbers have none. -/
def log (x : Float) : Float :=
  if x.isNaN || x < 0 then notANumber
  else if x == 0 then infinity true
  else if x.isInf then x
  else logOfBits x.toBits.toNat

/-- The binary logarithm, exact on powers of two. -/
def log2 (x : Float) : Float :=
  let (fraction, exponent) := split x
  if fraction == 0.5 then ofRat (exponent - 1)
  else log fraction * log2e + ofRat exponent

/-- The decimal logarithm. -/
def log10 (x : Float) : Float := log x * log10e

/-! ### Hyperbolic functions -/

/-- From this bound on the exponential of `-x` is lost beside that of `x`. -/
def hyperbolicBound : Float := 21

/-- Hyperbolic cosine; far from zero, half the exponential. -/
def cosh (x : Float) : Float :=
  let e := exp x.abs
  if x.abs > hyperbolicBound then e * 0.5 else (e + 1 / e) * 0.5

/-- The numerator of the hyperbolic sine near zero, over its argument. -/
def sinhNumerator : List Float :=
  [-0.2630563213397497062819489e+2, -0.2894211355989563807284660366e+4,
    -0.8991272022039509355398013511e+5, -0.6307673640497716991184787251e+6]

/-- The denominator of the hyperbolic sine near zero. -/
def sinhDenominator : List Float :=
  [1, -0.173678953558233699533450911e+3, 0.1521517378790019070696485176e+5,
    -0.6307673640497716991212077277e+6]

/-- Hyperbolic sine; far from zero, half the exponential, and near it a quotient of polynomials,
which keeps the sign of zero. -/
def sinh (x : Float) : Float :=
  let a := if x < 0 then -x else x
  let size :=
    if a > hyperbolicBound then exp a * 0.5
    else if a > 0.5 then (exp a - 1 / exp a) * 0.5
    else horner sinhNumerator (a * a) * a / horner sinhDenominator (a * a)
  if x < 0 then -size else size

/-- From this bound on the hyperbolic tangent is one. -/
def tanhBound : Float := 0.5 * 8.8029691931113054295988e+01

/-- The numerator of the hyperbolic tangent near zero, beyond its linear term. -/
def tanhNumerator : List Float :=
  [-9.64399179425052238628e-1, -9.92877231001918586564e1, -1.61468768441708447952e3]

/-- The denominator of the hyperbolic tangent near zero, beyond its linear term. -/
def tanhDenominator : List Float :=
  [1, 1.12811678491632931402e2, 2.23548839060100448583e3, 4.84406305325125486048e3]

/-- Hyperbolic tangent. -/
def tanh (x : Float) : Float :=
  let a := x.abs
  if a > tanhBound then (if x < 0 then -1 else 1)
  else if a ≥ 0.625 then
    let size := 1 - 2 / (exp (2 * a) + 1)
    if x < 0 then -size else size
  else if x == 0 then x
  else
    let s := x * x
    x + x * s * horner tanhNumerator s / horner tanhDenominator s

end Scheme.Binary64
