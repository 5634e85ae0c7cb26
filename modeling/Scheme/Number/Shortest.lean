import Scheme.Number.Binary64

/-!
# Shortest decimals

The shortest decimal of a finite double-precision number is the one with the fewest digits that
reads back as that number; of those with equally few digits, the nearest, and of two that are
equally near, the even one.

* `Decimal`: a decimal `digits · 10^exponent`;
* `Decimal.neighbours`: the multiples of a power of ten below and above a value;
* `Decimal.shortest`: the search, over growing numbers of digits.
-/

namespace Scheme

/-- The decimal `digits · 10^exponent`. -/
structure Decimal where
  digits : Nat
  exponent : Int
  deriving DecidableEq

namespace Decimal

/-- The bits of the number that the decimal reads back as. -/
def bits (d : Decimal) : Nat := Binary64.decimalBits d.digits d.exponent

/-- `10^e ≤ m · 2^q`. -/
def powerReached (m : Nat) (q e : Int) : Bool :=
  twoPow (-q).toNat * tenPow e.toNat ≤ m * twoPow q.toNat * tenPow (-e).toNat

/-- The integer part of the decimal logarithm of the positive value `m · 2^q`.  The first guess is
never too high, and low by at most three. -/
def decimalLog (m : Nat) (q : Int) : Int :=
  let guess := (((Nat.log2 m : Int) + q) * 30103).fdiv 100000 - 1
  (List.range 3).foldl (fun e _ => if powerReached m q (e + 1) then e + 1 else e) guess

/-- The multiples of `10^e` next to `m · 2^q`, the nearer one first, the even one first if they are
equally near. -/
def neighbours (m : Nat) (q e : Int) : List Decimal :=
  let num := m * twoPow q.toNat * tenPow (-e).toNat
  let den := twoPow (-q).toNat * tenPow e.toNat
  let below := num / den
  if Rounding.divNearestEven num den = below then [⟨below, e⟩, ⟨below + 1, e⟩]
  else [⟨below + 1, e⟩, ⟨below, e⟩]

/-- All digits of `m · 2^q`. -/
def full (m : Nat) (q : Int) : Decimal :=
  if 0 ≤ q then ⟨m * twoPow q.toNat, 0⟩ else ⟨m * Nat.pow 5 (-q).toNat, q⟩

/-- The shortest decimal that reads back as the positive number `m · 2^q`. -/
def shortest (m : Nat) (q : Int) : Decimal :=
  let log := decimalLog m q
  let found := (List.range 17).findSome? fun (n : Nat) =>
    (neighbours m q (log - n)).find? fun d => d.bits = Binary64.magnitudeBits m q
  found.getD (full m q)

/-- The decimal digits, most significant first, without zeros at the end. -/
def significant (d : Decimal) : List Char :=
  (((Nat.toDigits 10 d.digits).reverse).dropWhile (· == '0')).reverse

/-- The exponent of the most significant digit. -/
def order (d : Decimal) : Int := ((Nat.toDigits 10 d.digits).length : Int) - 1 + d.exponent

end Decimal

end Scheme
