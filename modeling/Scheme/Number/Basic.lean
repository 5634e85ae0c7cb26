import Scheme.Number.Cartesian
import Scheme.Number.Real

/-!
# Numbers

A number is an exact complex number over the rationals or an inexact one over the double-precision
numbers.  Exactness belongs to the whole number, and an operation with an inexact operand is
inexact.

* `Number`: the type, `Number.ofInt`, `Number.ofReal`, `Number.rectangular`: its makers;
* `Number.isReal`, `Number.isRational`, `Number.isInteger`: the tower;
* `Number.real?`, `Number.int64?`, `Number.uint64?`: partial views;
* `Number.add`, `Number.sub`, `Number.mul`, `Number.div`, `Number.neg`, `Number.recip`: arithmetic;
  only a division by an exact zero fails.
-/

namespace Scheme

/-- An exact or an inexact complex number. -/
inductive Number where
  | exact (z : Cartesian Rat)
  | inexact (z : Cartesian Float)
  deriving DecidableEq

namespace Number

/-! ### Making numbers -/

/-- An exact real number. -/
def ofRat (x : Rat) : Number := .exact ⟨x, 0⟩

/-- An exact integer. -/
def ofInt (i : Int) : Number := ofRat i

/-- An inexact real number. -/
def ofFloat (x : Float) : Number := .inexact ⟨x, 0⟩

/-- A real number as a number of the same exactness. -/
def ofReal : RealNumber → Number
  | .exact x => ofRat x
  | .inexact x => ofFloat x

/-- The number with the given parts, exact only if both parts are. -/
def rectangular : RealNumber → RealNumber → Number
  | .exact x, .exact y => .exact ⟨x, y⟩
  | x, y => .inexact ⟨x.toFloat, y.toFloat⟩

/-! ### Views -/

/-- The number is exact. -/
def isExact : Number → Bool
  | .exact _ => true
  | .inexact _ => false

/-- The imaginary part is zero. -/
def isReal : Number → Bool
  | .exact z => z.im = 0
  | .inexact z => z.isReal

/-- The number is zero. -/
def isZero : Number → Bool
  | .exact z => z.re = 0 ∧ z.im = 0
  | .inexact z => z.isZero

/-- The value of a real number. -/
def real? : Number → Option RealNumber
  | .exact z => if z.im = 0 then some (.exact z.re) else none
  | .inexact z => if z.isReal then some (.inexact z.re) else none

/-- The number is real and finite. -/
def isRational (n : Number) : Bool :=
  match n.real? with
  | some (.exact _) => true
  | some (.inexact x) => Binary64.isFinite x
  | none => false

/-- The number is an integer of either exactness. -/
def isInteger (n : Number) : Bool :=
  match n.real? with
  | some (.exact x) => x.den = 1
  | some (.inexact x) => Binary64.isInteger x
  | none => false

/-- The value of an exact integer. -/
def int? : Number → Option Int
  | .exact z => if z.im = 0 ∧ z.re.den = 1 then some z.re.num else none
  | .inexact _ => none

/-- The value of an exact integer that fits into 64 bits with a sign. -/
def int64? (n : Number) : Option Int :=
  n.int?.filter fitsSigned

/-- The value of an exact natural number that fits into 64 bits. -/
def uint64? (n : Number) : Option Nat :=
  (n.int?.filter fun (i : Int) => 0 ≤ i ∧ i < wordBound).map Int.toNat

/-- The inexact parts of a number. -/
def toFloats : Number → Cartesian Float
  | .exact z => ⟨Binary64.ofRat z.re, Binary64.ofRat z.im⟩
  | .inexact z => z

/-- The inexact counterpart. -/
def toInexact (n : Number) : Number := .inexact n.toFloats

/-- The exact counterpart, which infinities and NaNs do not have. -/
def toExact : Number → Except NumberError Number
  | .exact z => .ok (.exact z)
  | .inexact z =>
    match Binary64.exactValue? z.re, Binary64.exactValue? z.im with
    | some x, some y => .ok (.exact ⟨x, y⟩)
    | _, _ => .error .noExact

/-- The real part. -/
def realPart : Number → Number
  | .exact z => ofRat z.re
  | .inexact z => ofFloat z.re

/-- The imaginary part. -/
def imagPart : Number → Number
  | .exact z => ofRat z.im
  | .inexact z => ofFloat z.im

/-- The numbers agree in exactness and value; a NaN agrees with nothing. -/
def same : Number → Number → Bool
  | .exact z, .exact w => decide (z = w)
  | .inexact z, .inexact w => z.re == w.re && z.im == w.im
  | _, _ => false

/-- The distance of the inexact counterparts is below `tolerance`. -/
def near (n m : Number) (tolerance : Float) : Bool :=
  decide ((n.toFloats - m.toFloats).magnitude < tolerance)

/-! ### Arithmetic -/

/-- Apply `onExact` to two exact numbers and `onInexact` to the inexact counterparts otherwise. -/
def combine (onExact : Cartesian Rat → Cartesian Rat → Cartesian Rat)
    (onInexact : Cartesian Float → Cartesian Float → Cartesian Float) : Number → Number → Number
  | .exact z, .exact w => .exact (onExact z w)
  | n, m => .inexact (onInexact n.toFloats m.toFloats)

/-- The sum. -/
def add : Number → Number → Number := combine Cartesian.add Cartesian.add

/-- The difference. -/
def sub : Number → Number → Number := combine Cartesian.sub Cartesian.sub

/-- The product. -/
def mul : Number → Number → Number := combine Cartesian.exactMul Cartesian.floatMul

/-- The quotient, which an exact zero as divisor does not have. -/
def div (n m : Number) : Except NumberError Number :=
  if m.isExact && m.isZero then .error .divideByZero
  else .ok (combine Cartesian.exactDiv Cartesian.floatDiv n m)

/-- The negative. -/
def neg : Number → Number
  | .exact z => .exact z.neg
  | .inexact z => .inexact z.neg

/-- The reciprocal. -/
def recip (n : Number) : Except NumberError Number := div (ofInt 1) n

/-- The absolute value, exact for an exact real. -/
def magnitude (n : Number) : Number :=
  match n.real? with
  | some x => ofReal x.abs
  | none => ofFloat n.toFloats.magnitude

/-- The angle from the positive real axis, exact for an exact real that is not negative. -/
def angle (n : Number) : Number :=
  match n.real? with
  | some (.exact x) => if 0 ≤ x then ofInt 0 else ofFloat n.toFloats.angle
  | _ => ofFloat n.toFloats.angle

end Number

end Scheme
