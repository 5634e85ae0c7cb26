import Scheme.Number.Basic
import Scheme.Number.Exponential

/-!
# Elementary functions

Exponential, logarithms, roots, circular and hyperbolic functions of complex numbers.  They work on
the inexact counterpart of their argument and give inexact results, on the principal branch.

* `Cartesian.exp`, `Cartesian.log`, `Cartesian.sqrt`, `Cartesian.sin`, `Cartesian.cos`: the
  functions of double-precision parts;
* `Number.exp`, `Number.log` and the others: the same for numbers.
-/

namespace Scheme

namespace Cartesian

/-- The unit `i`. -/
def unit : Cartesian Float := ⟨0, 1⟩

/-- A real number. -/
def real (x : Float) : Cartesian Float := ⟨x, 0⟩

/-- `e^x (cos y + i sin y)`. -/
def exp (z : Cartesian Float) : Cartesian Float :=
  let e := Binary64.exp z.re
  if z.isReal then ⟨e, 0⟩ else ⟨e * Binary64.cos z.im, e * Binary64.sin z.im⟩

/-- The principal logarithm `ln |z| + i arg z`. -/
def log (z : Cartesian Float) : Cartesian Float := ⟨Binary64.log z.magnitude, z.angle⟩

/-- The principal square root. -/
def sqrt (z : Cartesian Float) : Cartesian Float :=
  if z.isReal then
    if z.re ≥ 0 then ⟨Float.sqrt z.re, 0⟩
    else ⟨0, Binary64.copySign (Float.sqrt (-z.re)) z.im⟩
  else
    let radius := Float.sqrt z.magnitude
    let half := z.angle / 2
    ⟨radius * Binary64.cos half, radius * Binary64.sin half⟩

/-- `sin x cosh y + i cos x sinh y`. -/
def sin (z : Cartesian Float) : Cartesian Float :=
  ⟨Binary64.sin z.re * Binary64.cosh z.im, Binary64.cos z.re * Binary64.sinh z.im⟩

/-- `cos x cosh y - i sin x sinh y`. -/
def cos (z : Cartesian Float) : Cartesian Float :=
  ⟨Binary64.cos z.re * Binary64.cosh z.im, -(Binary64.sin z.re * Binary64.sinh z.im)⟩

/-- The number lies on the real segment from `-1` to `1`. -/
def isCosine (z : Cartesian Float) : Bool := z.isReal && z.re ≥ -1 && z.re ≤ 1

/-- `-i ln (i z + √(1 - z²))`. -/
def asin (z : Cartesian Float) : Cartesian Float :=
  if z.isCosine then real (Binary64.asin z.re)
  else (-unit) * (unit * z + (real 1 - z * z).sqrt).log

/-- `-i ln (z + i √(1 - z²))`. -/
def acos (z : Cartesian Float) : Cartesian Float :=
  if z.isCosine then real (Binary64.acos z.re)
  else (-unit) * (z + unit * (real 1 - z * z).sqrt).log

/-- `i/2 (ln (1 - i z) - ln (1 + i z))`. -/
def atan (z : Cartesian Float) : Cartesian Float :=
  if z.isReal then real (Binary64.atan z.re)
  else ⟨0, 0.5⟩ * ((real 1 - unit * z).log - (real 1 + unit * z).log)

/-- `(e^z - e^-z) / 2`. -/
def sinh (z : Cartesian Float) : Cartesian Float := complexDiv (z.exp - (-z).exp) (real 2)

/-- `(e^z + e^-z) / 2`. -/
def cosh (z : Cartesian Float) : Cartesian Float := complexDiv (z.exp + (-z).exp) (real 2)

/-- `(e^z - e^-z) / (e^z + e^-z)`. -/
def tanh (z : Cartesian Float) : Cartesian Float :=
  if z.isReal then real (Binary64.tanh z.re)
  else floatDiv (z.exp - (-z).exp) (z.exp + (-z).exp)

end Cartesian

namespace Number

/-- The function `f` of the inexact counterpart. -/
def through (f : Cartesian Float → Cartesian Float) (n : Number) : Number := .inexact (f n.toFloats)

/-- The exponential. -/
def exp : Number → Number := through Cartesian.exp

/-- The natural logarithm. -/
def log : Number → Number := through Cartesian.log

/-- The logarithm to a given base. -/
def logBase (n base : Number) : Number :=
  .inexact (Cartesian.floatDiv n.toFloats.log base.toFloats.log)

/-- A logarithm that is `onReal` for positive reals and the natural one over `scale` elsewhere. -/
def logWith (onReal : Float → Float) (scale : Float) : Number → Number :=
  through fun z =>
    if z.isReal && z.re > 0 then ⟨onReal z.re, 0⟩
    else ⟨z.log.re / scale, z.log.im / scale⟩

/-- The binary logarithm. -/
def log2 : Number → Number := logWith Binary64.log2 Binary64.ln2

/-- The decimal logarithm. -/
def log10 : Number → Number := logWith Binary64.log10 Binary64.ln10

/-- The principal square root. -/
def sqrt : Number → Number := through Cartesian.sqrt

/-- The sine. -/
def sin : Number → Number := through Cartesian.sin

/-- The cosine. -/
def cos : Number → Number := through Cartesian.cos

/-- The tangent. -/
def tan : Number → Number := through fun z => Cartesian.floatDiv z.sin z.cos

/-- The arcsine. -/
def asin : Number → Number := through Cartesian.asin

/-- The arccosine. -/
def acos : Number → Number := through Cartesian.acos

/-- The arctangent. -/
def atan : Number → Number := through Cartesian.atan

/-- The angle of the point with ordinate `y` and abscissa `x`, for real numbers only. -/
def atan2 (y x : Number) : Except NumberError Number :=
  match y.real?, x.real? with
  | some b, some a => .ok (ofFloat (Binary64.atan2 b.toFloat a.toFloat))
  | _, _ => .error .complexAngle

/-- The hyperbolic sine. -/
def sinh : Number → Number := through Cartesian.sinh

/-- The hyperbolic cosine. -/
def cosh : Number → Number := through Cartesian.cosh

/-- The hyperbolic tangent. -/
def tanh : Number → Number := through Cartesian.tanh

/-- The inexact number with the given magnitude and angle. -/
def polar (magnitude angle : Float) : Number :=
  if angle == 0 then ofFloat magnitude
  else .inexact ⟨magnitude * Binary64.cos angle, magnitude * Binary64.sin angle⟩

end Number

end Scheme
