/-!
# Rounding rational numbers to integers

* `Rat.floor` of core rounds down; `Rounding.ceil` rounds up;
* `Rounding.trunc` drops the fraction;
* `Rounding.nearestEven` takes the nearest integer, and the even one of two that are equally near;
* `Rounding.divNearestEven` does the same for a quotient of natural numbers.
-/

namespace Scheme.Rounding

/-- The least integer that is not below `x`. -/
def ceil (x : Rat) : Int := -(-x).floor

/-- The integer part of `x`, toward zero. -/
def trunc (x : Rat) : Int := x.num.tdiv x.den

/-- The integer nearest to `x`; of two that are equally near, the even one. -/
def nearestEven (x : Rat) : Int :=
  let below := x.floor
  let rest := x - below
  if rest < 1 / 2 then below
  else if 1 / 2 < rest then below + 1
  else if below % 2 = 0 then below
  else below + 1

/-- The natural number nearest to `num / den`; of two that are equally near, the even one. -/
def divNearestEven (num den : Nat) : Nat :=
  let below := num / den
  let rest := num % den
  if 2 * rest < den then below
  else if den < 2 * rest then below + 1
  else if below % 2 = 0 then below
  else below + 1

end Scheme.Rounding
