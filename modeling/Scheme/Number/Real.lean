import Scheme.Number.Binary64

/-!
# Real numbers

A real number is an exact rational or an inexact double-precision number.  An operation on two reals
is exact when both operands are; otherwise the exact operand is first rounded to an inexact one.

* `NumberError`: the ways an operation on numbers can fail;
* `RealNumber.combine`: the rule of contagion, from which comparisons, extrema and the integer
  divisions are made;
* `RealNumber.quotient`, `RealNumber.remainder`, `RealNumber.modulo`: integer division truncated
  toward zero, its remainder, and the remainder with the sign of the divisor.
-/

namespace Scheme

/-- The ways an operation on numbers can fail. -/
inductive NumberError where
  /-- Division by an exact zero. -/
  | divideByZero
  /-- The angle of a point with a non-real coordinate. -/
  | complexAngle
  /-- An integer was required. -/
  | notInteger
  /-- An infinity or a NaN has no exact counterpart. -/
  | noExact
  deriving DecidableEq

/-- The text of a failure. -/
def NumberError.message : NumberError → String
  | .divideByZero => "divide by zero"
  | .complexAngle => "atan2 is not defined for complex numbers"
  | .notInteger => "not an integer"
  | .noExact => "no exact representation"

/-- An exact rational or an inexact double-precision number. -/
inductive RealNumber where
  | exact (x : Rat)
  | inexact (x : Float)
  deriving DecidableEq

namespace RealNumber

/-- The real is exact. -/
def isExact : RealNumber → Bool
  | .exact _ => true
  | .inexact _ => false

/-- The nearest double-precision number. -/
def toFloat : RealNumber → Float
  | .exact x => Binary64.ofRat x
  | .inexact x => x

/-- The value of an exact real. -/
def toRat? : RealNumber → Option Rat
  | .exact x => some x
  | .inexact _ => none

/-- `-1`, `0` or `1`; a NaN has the sign `0`. -/
def sign : RealNumber → Int
  | .exact x => x.num.sign
  | .inexact x => if x < 0 then -1 else if x > 0 then 1 else 0

/-- Apply `onRat` to two exact reals and `onFloat` to the nearest inexact ones otherwise. -/
def combine {α : Type} (onRat : Rat → Rat → α) (onFloat : Float → Float → α) :
    RealNumber → RealNumber → α
  | .exact x, .exact y => onRat x y
  | x, y => onFloat x.toFloat y.toFloat

/-- Apply `onRat` to an exact real and `onFloat` to an inexact one. -/
def map (onRat : Rat → Rat) (onFloat : Float → Float) : RealNumber → RealNumber
  | .exact x => .exact (onRat x)
  | .inexact x => .inexact (onFloat x)

/-! ### Comparisons -/

/-- `x = y` as numbers. -/
def numEq : RealNumber → RealNumber → Bool :=
  combine (fun x y => decide (x = y)) (fun x y => x == y)

/-- `x < y`. -/
def less : RealNumber → RealNumber → Bool :=
  combine (fun x y => decide (x < y)) (fun x y => decide (x < y))

/-- `x ≤ y`. -/
def lessEq : RealNumber → RealNumber → Bool :=
  combine (fun x y => decide (x ≤ y)) (fun x y => decide (x ≤ y))

/-- `x > y`. -/
def greater : RealNumber → RealNumber → Bool :=
  combine (fun x y => decide (y < x)) (fun x y => decide (y < x))

/-- `x ≥ y`. -/
def greaterEq : RealNumber → RealNumber → Bool :=
  combine (fun x y => decide (y ≤ x)) (fun x y => decide (y ≤ x))

/-- The smaller of two reals, inexact if either is. -/
def min : RealNumber → RealNumber → RealNumber :=
  combine (fun x y => .exact (if x ≤ y then x else y)) (fun x y => .inexact (Binary64.minimum x y))

/-- The larger of two reals, inexact if either is. -/
def max : RealNumber → RealNumber → RealNumber :=
  combine (fun x y => .exact (if y ≤ x then x else y)) (fun x y => .inexact (Binary64.maximum x y))

/-! ### Magnitude and integer parts -/

/-- `|x|`. -/
def abs : RealNumber → RealNumber :=
  map (fun x => if x < 0 then -x else x) Float.abs

/-- The real rounded to an integer by `round`, with its exactness. -/
def roundWith (round : Rat → Int) : RealNumber → RealNumber :=
  map (fun x => round x) (Binary64.roundWith round)

/-- The largest integer that is not above the real. -/
def floor : RealNumber → RealNumber := roundWith Rat.floor

/-- The least integer that is not below the real. -/
def ceil : RealNumber → RealNumber := roundWith Rounding.ceil

/-- The integer part, toward zero. -/
def trunc : RealNumber → RealNumber := roundWith Rounding.trunc

/-- The nearest integer, the even one of two that are equally near. -/
def round : RealNumber → RealNumber := roundWith Rounding.nearestEven

/-! ### Integer division -/

/-- An operation on integers of either exactness.  Operands that are not integers fail first, then
an exact divisor zero. -/
def integerDivision (onInt : Int → Int → Int) (onFloat : Float → Float → Float) :
    RealNumber → RealNumber → Except NumberError RealNumber :=
  combine
    (fun x y =>
      if x.den ≠ 1 ∨ y.den ≠ 1 then .error .notInteger
      else if y.num = 0 then .error .divideByZero
      else .ok (.exact (onInt x.num y.num)))
    (fun x y =>
      if Binary64.isInteger x && Binary64.isInteger y then .ok (.inexact (onFloat x y))
      else .error .notInteger)

/-- The quotient truncated toward zero. -/
def quotient : RealNumber → RealNumber → Except NumberError RealNumber :=
  integerDivision Int.tdiv (fun x y => Binary64.trunc (x / y))

/-- The remainder with the sign of the dividend. -/
def remainder : RealNumber → RealNumber → Except NumberError RealNumber :=
  integerDivision Int.tmod Binary64.remainder

/-- The remainder of inexact numbers with the sign of the divisor. -/
def floatModulo (x y : Float) : Float :=
  let m := Binary64.remainder x y
  if m != 0 && decide (m < 0) != decide (y < 0) then m + y else m

/-- The remainder of integers with the sign of the divisor. -/
def intModulo (x y : Int) : Int :=
  let m := x.tmod y
  if m ≠ 0 ∧ m.sign ≠ y.sign then m + y else m

/-- The remainder with the sign of the divisor. -/
def modulo : RealNumber → RealNumber → Except NumberError RealNumber :=
  integerDivision intModulo floatModulo

/-! ### Lowest terms -/

/-- A part of the fraction in lowest terms that equals the real, with its exactness. -/
def fractionPart (part : Rat → Int) : RealNumber → Except NumberError RealNumber
  | .exact x => .ok (.exact (part x))
  | .inexact x =>
    match Binary64.exactValue? x with
    | some value => .ok (.inexact (Binary64.ofRat (part value)))
    | none => .error .noExact

/-- The numerator in lowest terms. -/
def numerator : RealNumber → Except NumberError RealNumber := fractionPart Rat.num

/-- The denominator in lowest terms. -/
def denominator : RealNumber → Except NumberError RealNumber := fractionPart fun x => (x.den : Int)

end RealNumber

end Scheme
