import Scheme.Number.Binary64

/-!
# Scaled numbers, fused steps and polynomials

The tools with which elementary functions are approximated.

* `Binary64.scale`: the product with a power of two;
* `Binary64.split`: fraction and exponent, with the fraction in `[1/2, 1)`;
* `Binary64.mulAdd`: a product and a sum under one rounding;
* `Binary64.horner`, `Binary64.hornerFused`: the value of a polynomial, with two roundings a step
  and with one.
-/

namespace Scheme.Binary64

/-- `x · 2^e`, rounded once. -/
def scale (x : Float) (e : Int) : Float :=
  match ofFloat x with
  | .finite negative m q => ofScaled negative m (q + e)
  | _ => x

/-- The fraction `f` and the exponent `e` with `x = f · 2^e` and `1/2 ≤ |f| < 1`.  Zeros, infinities
and NaNs are their own fraction. -/
def split (x : Float) : Float × Int :=
  match ofFloat x with
  | .finite negative m q =>
    if m = 0 then (x, 0)
    else
      let width := Nat.log2 m + 1
      (nearest negative m (twoPow width), q + width)
  | _ => (x, 0)

/-- The nearest integer to a finite number, the even one of two; zero for the others. -/
def nearestInt (x : Float) : Int :=
  match exactValue? x with
  | some value => Rounding.nearestEven value
  | none => 0

/-- A mantissa with its sign. -/
def signed (negative : Bool) (m : Nat) : Int := if negative then -m else m

/-- `x · y + z`, rounded once.  Where the exact value is zero, product and sum are exact, and have
the right sign. -/
def mulAdd (x y z : Float) : Float :=
  match ofFloat x, ofFloat y, ofFloat z with
  | .finite s m q, .finite t n r, .finite u k e =>
    let least := min (q + r) e
    let value := signed s m * signed t n * twoPow (q + r - least).toNat +
      signed u k * twoPow (e - least).toNat
    if value = 0 then x * y + z else ofScaled (decide (value < 0)) value.natAbs least
  | .finite .., .finite .., _ => z
  | _, _, _ => x * y + z

/-- The value at `x` of the polynomial with the given coefficients, the leading one first. -/
def horner (coefficients : List Float) (x : Float) : Float :=
  coefficients.foldl (fun sum c => sum * x + c) 0

/-- The value at `x` of the polynomial with the given coefficients, each step rounded once. -/
def hornerFused (coefficients : List Float) (x : Float) : Float :=
  coefficients.foldl (fun sum c => mulAdd sum x c) 0

end Scheme.Binary64
