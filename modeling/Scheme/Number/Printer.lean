import Scheme.Number.Basic
import Scheme.Number.Digits
import Scheme.Number.Shortest

/-!
# The text of numbers

Exact numbers are written as integers or fractions in lowest terms.  Inexact numbers are written
with the shortest decimal that reads back, always with a point or an exponent, so that the text
reads back as inexact.  A zero part of a complex number is left out.

* `Decimal.text`: positional from `0.0001` up to six digits before the point, scientific beyond;
* `Number.text`: the text of any number.
-/

namespace Scheme

namespace Decimal

/-- An exponent with its sign and at least two digits. -/
def exponentText (e : Int) : List Char :=
  let digits := Nat.toDigits 10 e.natAbs
  (if e < 0 then '-' else '+') :: (if digits.length < 2 then '0' :: digits else digits)

/-- One digit before the point, the others after it, and the exponent. -/
def scientific (digits : List Char) (order : Int) : List Char :=
  let mantissa :=
    match digits with
    | [] => ['0']
    | [d] => [d]
    | d :: ds => d :: '.' :: ds
  mantissa ++ 'e' :: exponentText order

/-- All digits in their place around the point. -/
def positional (digits : List Char) (order : Int) : List Char :=
  if order < 0 then '0' :: '.' :: (List.replicate (-order - 1).toNat '0' ++ digits)
  else
    let whole := order.toNat + 1
    let decimals := digits.drop whole
    digits.take whole ++ List.replicate (whole - digits.length) '0' ++
      '.' :: (if decimals.isEmpty then ['0'] else decimals)

/-- The text of a positive decimal: scientific for orders below `-4` and from `6` on. -/
def text (d : Decimal) : List Char :=
  if d.order < -4 ∨ 6 ≤ d.order then scientific d.significant d.order
  else positional d.significant d.order

end Decimal

/-- The text of a double-precision number. -/
def Binary64.text (x : Float) : List Char :=
  match Binary64.ofFloat x with
  | .nan => "+nan.0".toList
  | .infinite negative => if negative then "-inf.0".toList else "+inf.0".toList
  | .finite negative m q =>
    let magnitude := if m = 0 then "0.0".toList else (Decimal.shortest m q).text
    if negative then '-' :: magnitude else magnitude

/-- The text of a rational: an integer, or a fraction in lowest terms. -/
def rationalText (x : Rat) : List Char :=
  let numerator := (if x.num < 0 then ['-'] else []) ++ decimalDigits x.num.natAbs
  if x.den = 1 then numerator else numerator ++ '/' :: decimalDigits x.den

/-- The text with a sign in front, also if it is positive. -/
def withSign : List Char → List Char
  | '-' :: cs => '-' :: cs
  | '+' :: cs => '+' :: cs
  | cs => '+' :: cs

namespace Number

/-- The text of a complex number from the texts of its parts. -/
def joinParts (re im : List Char) (reZero imZero : Bool) : List Char :=
  if imZero then re
  else if reZero then withSign im ++ ['i']
  else re ++ withSign im ++ ['i']

/-- The characters of a number's text. -/
def chars : Number → List Char
  | .exact z => joinParts (rationalText z.re) (rationalText z.im) (z.re = 0) (z.im = 0)
  | .inexact z => joinParts (Binary64.text z.re) (Binary64.text z.im) (z.re == 0) (z.im == 0)

/-- The text of a number, which reads back as the same number unless a part is a NaN. -/
def text (n : Number) : String := String.ofList n.chars

end Number

/-- The text of a real number. -/
def RealNumber.text (x : RealNumber) : String := (Number.ofReal x).text

end Scheme
