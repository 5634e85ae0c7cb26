import Scheme.Number.Rounding
import Scheme.Number.Scale

/-!
# Double-precision numbers as exact values

A finite double-precision number is `±m · 2^q` with `m < 2^53` and `-1074 ≤ q`.  This module takes a
`Float` apart into these integers, rounds rational and decimal values to the nearest `Float`, and
does with the exact values what needs no further rounding: integer parts and remainders.

* `Binary64.ofFloat`: sign, mantissa and exponent;
* `Binary64.exactValue?`: the value of a finite number as a rational;
* `Binary64.nearest`, `Binary64.ofRat`, `Binary64.ofDecimal`: rounding to nearest, ties to even,
  with overflow to infinity and gradual underflow;
* `Binary64.roundWith`: rounding to an integer that keeps the sign of zero;
* `Binary64.remainder`: the exact remainder with the sign of the dividend.
-/

namespace Scheme

/-- A double-precision number taken apart: `finite s m q` is `m · 2^q` with the sign `s`. -/
inductive Binary64 where
  | nan
  | infinite (negative : Bool)
  | finite (negative : Bool) (mantissa : Nat) (exponent : Int)
  deriving DecidableEq

namespace Binary64

/-- The exponent of the smallest positive number. -/
def leastExponent : Int := -1074

/-- The bits of positive infinity. -/
def infinityBits : Nat := 2047 * twoPow 52

/-- Take `x` apart by its bits. -/
def ofFloat (x : Float) : Binary64 :=
  let bits := x.toBits.toNat
  let negative : Bool := signBound ≤ bits
  let field : Nat := bits / twoPow 52 % twoPow 11
  let fraction := bits % twoPow 52
  if field = 2047 then
    if fraction = 0 then .infinite negative else .nan
  else if field = 0 then .finite negative fraction leastExponent
  else .finite negative (twoPow 52 + fraction) ((field : Int) - 1075)

/-- The number with the given sign and the given bits below the sign. -/
def ofBits (negative : Bool) (bits : Nat) : Float :=
  Float.ofBits (UInt64.ofNat (if negative then signBound + bits else bits))

/-- Positive or negative infinity. -/
def infinity (negative : Bool) : Float := ofBits negative infinityBits

/-- The sign bit of `x`. -/
def isNegative (x : Float) : Bool := signBound ≤ x.toBits.toNat

/-- `x` with the sign of `y`. -/
def copySign (x y : Float) : Float :=
  ofBits (isNegative y) (x.toBits.toNat % signBound)

/-- `x` is neither infinite nor a NaN. -/
def isFinite (x : Float) : Bool :=
  match ofFloat x with
  | .finite .. => true
  | _ => false

/-- `x` is an infinity of the given sign. -/
def isInfinity (negative : Bool) (x : Float) : Bool :=
  ofFloat x == .infinite negative

/-! ### Exact values -/

/-- `m · 2^q`. -/
def scaled (m : Int) (q : Int) : Rat :=
  if 0 ≤ q then ((m * twoPow q.toNat : Int) : Rat) else mkRat m (twoPow (-q).toNat)

/-- The value of a finite number. -/
def exactValue? (x : Float) : Option Rat :=
  match ofFloat x with
  | .finite negative m q => some (scaled (if negative then -m else m) q)
  | _ => none

/-! ### Rounding to the nearest number -/

/-- The integer part of the binary logarithm of `num / den`, for positive arguments. -/
def binaryLog (num den : Nat) : Int :=
  let guess : Int := (Nat.log2 num : Int) - Nat.log2 den
  let reached : Bool :=
    if 0 ≤ guess then den * twoPow guess.toNat ≤ num else den ≤ num * twoPow (-guess).toNat
  if reached then guess else guess - 1

/-- The bits of `m · 2^q` below the sign, where `m` fills the mantissa or `q` is the least exponent.
They are the same when `m` is rounded up to the next power of two. -/
def magnitudeBits (m : Nat) (q : Int) : Nat := (q - leastExponent).toNat * twoPow 52 + m

/-- The bits, below the sign, of the number nearest to `num / den`: the exponent is chosen so that
the rounded quotient fills the mantissa. -/
def nearestBits (num den : Nat) : Nat :=
  if num = 0 then 0
  else
    let q := max (binaryLog num den - 52) leastExponent
    let m :=
      if 0 ≤ q then Rounding.divNearestEven num (den * twoPow q.toNat)
      else Rounding.divNearestEven (num * twoPow (-q).toNat) den
    min (magnitudeBits m q) infinityBits

/-- The number of the given sign nearest to `num / den`; of two that are equally near, the one with
the even mantissa. -/
def nearest (negative : Bool) (num den : Nat) : Float :=
  ofBits negative (nearestBits num den)

/-- The number nearest to `x`. -/
def ofRat (x : Rat) : Float :=
  nearest (x.num < 0) x.num.natAbs x.den

/-- The number of the given sign nearest to `m · 2^q`. -/
def ofScaled (negative : Bool) (m : Nat) (q : Int) : Float :=
  if 0 ≤ q then nearest negative (m * twoPow q.toNat) 1 else nearest negative m (twoPow (-q).toNat)

/-- The bits, below the sign, of the number nearest to `digits · 10^exponent`.

Values from `10^310` on are infinite and values below `10^-330` are zero, so the power of ten is
formed only for exponents between these bounds. -/
def decimalBits (digits : Nat) (exponent : Int) : Nat :=
  if digits = 0 ∨ exponent + Nat.log2 digits + 1 < -330 then 0
  else if 310 < exponent then infinityBits
  else if 0 ≤ exponent then nearestBits (digits * tenPow exponent.toNat) 1
  else nearestBits digits (tenPow (-exponent).toNat)

/-- The number of the given sign nearest to `digits · 10^exponent`. -/
def ofDecimal (negative : Bool) (digits : Nat) (exponent : Int) : Float :=
  ofBits negative (decimalBits digits exponent)

/-! ### Integer parts and remainders -/

/-- Round a finite number to an integer with `round`, keeping its sign also at zero. -/
def roundWith (round : Rat → Int) (x : Float) : Float :=
  match ofFloat x with
  | .finite negative m q =>
    nearest negative (round (scaled (if negative then -m else m) q)).natAbs 1
  | _ => x

/-- The integer part of `x`, toward zero. -/
def trunc (x : Float) : Float := roundWith Rounding.trunc x

/-- `x` is a finite integer. -/
def isInteger (x : Float) : Bool := isFinite x && x == trunc x

/-- A number that is not a number. -/
def notANumber : Float := 0.0 / 0.0

/-- The remainder of `x` by `y` with the sign of `x`, exactly.  There is none for an infinite
dividend or a divisor zero; an infinite divisor leaves `x` as it is. -/
def remainder (x y : Float) : Float :=
  match ofFloat x, ofFloat y with
  | .finite negative m q, .finite _ n r =>
    if n = 0 then notANumber
    else
      let least := min q r
      ofScaled negative (m * twoPow (q - least).toNat % (n * twoPow (r - least).toNat)) least
  | .finite .., .infinite _ => x
  | _, _ => notANumber

/-! ### Comparisons that see infinities before NaN -/

/-- The larger of `x` and `y`: positive infinity wins even against a NaN, and zero against negative
zero. -/
def maximum (x y : Float) : Float :=
  if isInfinity false x || isInfinity false y then infinity false
  else if x.isNaN || y.isNaN then notANumber
  else if x == 0 && y == 0 then (if isNegative x then y else x)
  else if x > y then x
  else y

/-- The smaller of `x` and `y`: negative infinity wins even against a NaN, and negative zero against
zero. -/
def minimum (x y : Float) : Float :=
  if isInfinity true x || isInfinity true y then infinity true
  else if x.isNaN || y.isNaN then notANumber
  else if x == 0 && y == 0 then (if isNegative x then x else y)
  else if x < y then x
  else y

/-- The length of the hypotenuse over `x` and `y`, without overflow in between; infinite if either
side is. -/
def hypotenuse (x y : Float) : Float :=
  if x.isInf || y.isInf then infinity false
  else if x.isNaN || y.isNaN then notANumber
  else
    let (long, short) := if x.abs < y.abs then (y.abs, x.abs) else (x.abs, y.abs)
    if long == 0 then 0
    else
      let slope := short / long
      long * Float.sqrt (1 + slope * slope)

end Binary64

end Scheme
