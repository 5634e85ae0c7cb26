import Scheme.Number.Circular

/-!
# Complex numbers by their two parts

Exact complex numbers have rational parts and form the field of Gaussian rationals; inexact ones
have double-precision parts, and their arithmetic rounds every operation.

* `Cartesian α`: a real and an imaginary part;
* `Cartesian.add`, `Cartesian.mul` and the quotient `Cartesian.exactDiv` of rational parts;
* `Cartesian.floatMul`, `Cartesian.floatDiv`: rounded product and quotient, which stay on the real
  line when both operands do.
-/

namespace Scheme

/-- The complex number `re + im · i`. -/
structure Cartesian (α : Type) where
  re : α
  im : α
  deriving DecidableEq

namespace Cartesian

section Parts

variable {α : Type} [Add α] [Sub α] [Neg α] [Mul α]

/-- The sum, part by part. -/
def add (z w : Cartesian α) : Cartesian α := ⟨z.re + w.re, z.im + w.im⟩

/-- The difference, part by part. -/
def sub (z w : Cartesian α) : Cartesian α := ⟨z.re - w.re, z.im - w.im⟩

/-- The negative, part by part. -/
def neg (z : Cartesian α) : Cartesian α := ⟨-z.re, -z.im⟩

/-- The product by the rule `i · i = -1`. -/
def mul (z w : Cartesian α) : Cartesian α :=
  ⟨z.re * w.re - z.im * w.im, z.re * w.im + z.im * w.re⟩

instance : Add (Cartesian α) := ⟨add⟩
instance : Sub (Cartesian α) := ⟨sub⟩
instance : Neg (Cartesian α) := ⟨neg⟩
instance : Mul (Cartesian α) := ⟨mul⟩

end Parts

/-! ### Rational parts -/

/-- The product of exact numbers, which needs one multiplication on the real line. -/
def exactMul (z w : Cartesian Rat) : Cartesian Rat :=
  if z.im = 0 ∧ w.im = 0 then ⟨z.re * w.re, 0⟩ else z * w

/-- The quotient of exact numbers by a divisor other than zero. -/
def exactDiv (z w : Cartesian Rat) : Cartesian Rat :=
  if w.im = 0 then ⟨z.re / w.re, z.im / w.re⟩
  else
    let norm := w.re * w.re + w.im * w.im
    ⟨(z.re * w.re + z.im * w.im) / norm, (z.im * w.re - z.re * w.im) / norm⟩

/-! ### Double-precision parts -/

/-- The imaginary part is zero. -/
def isReal (z : Cartesian Float) : Bool := z.im == 0

/-- Both parts are zero. -/
def isZero (z : Cartesian Float) : Bool := z.re == 0 && z.im == 0

/-- The absolute value. -/
def magnitude (z : Cartesian Float) : Float := Binary64.hypotenuse z.re z.im

/-- The angle from the positive real axis. -/
def angle (z : Cartesian Float) : Float := Binary64.atan2 z.im z.re

/-- The product, on the real line if both factors are real. -/
def floatMul (z w : Cartesian Float) : Cartesian Float :=
  if z.isReal && w.isReal then ⟨z.re * w.re, 0⟩ else z * w

/-- `±1` for an infinity and `±0` otherwise, with the sign of `x`. -/
def unitOfInfinity (x : Float) : Float := Binary64.copySign (if x.isInf then 1 else 0) x

/-- The quotient by scaling with the larger part of the divisor. -/
def scaledDiv (z w : Cartesian Float) : Cartesian Float :=
  if w.re.abs ≥ w.im.abs then
    let slope := w.im / w.re
    let den := w.re + slope * w.im
    ⟨(z.re + z.im * slope) / den, (z.im - z.re * slope) / den⟩
  else
    let slope := w.re / w.im
    let den := w.im + slope * w.re
    ⟨(z.re * slope + z.im) / den, (z.im * slope - z.re) / den⟩

/-- The quotient of complex numbers.  Where scaling leaves no number in either part, a divisor zero
and an infinite dividend give infinities, and an infinite divisor gives zeros. -/
def complexDiv (z w : Cartesian Float) : Cartesian Float :=
  let quotient := scaledDiv z w
  if quotient.re.isNaN && quotient.im.isNaN then
    if w.isZero && (!z.re.isNaN || !z.im.isNaN) then
      let infinity := Binary64.infinity (Binary64.isNegative w.re)
      ⟨infinity * z.re, infinity * z.im⟩
    else if (z.re.isInf || z.im.isInf) && Binary64.isFinite w.re && Binary64.isFinite w.im then
      let a := unitOfInfinity z.re
      let b := unitOfInfinity z.im
      let infinity := Binary64.infinity false
      ⟨infinity * (a * w.re + b * w.im), infinity * (b * w.re - a * w.im)⟩
    else if (w.re.isInf || w.im.isInf) && Binary64.isFinite z.re && Binary64.isFinite z.im then
      let c := unitOfInfinity w.re
      let d := unitOfInfinity w.im
      ⟨0 * (z.re * c + z.im * d), 0 * (z.im * c - z.re * d)⟩
    else quotient
  else quotient

/-- The quotient, on the real line if both operands are real: there a divisor zero gives an infinity
in the real part alone. -/
def floatDiv (z w : Cartesian Float) : Cartesian Float :=
  if z.isReal && w.isReal then ⟨z.re / w.re, 0⟩ else complexDiv z w

end Cartesian

end Scheme
