import Scheme.Number.Function

/-!
# Powers

An exact base with an exact integer exponent of 64 bits has an exact power, found by repeated
squaring; every other power is inexact.

* `exponentSize`: the size of an exponent as a word, `powerBy`: repeated squaring for any
  multiplication, over the binary digits of a word;
* `Binary64.pow`: the power of double-precision numbers;
* `Number.expt`: integer exponents, `Number.pow`: any exponent.
-/

namespace Scheme

/-- The size of an exponent.  The sign is changed within 64 bits, where the least exponent is its
own negative; the word of the result has no sign. -/
def exponentSize (e : Int64) : UInt64 := (if e < 0 then -e else e).toUInt64

/-- A word without its last binary digit. -/
theorem toNat_shiftRight_one (n : UInt64) : (n >>> 1).toNat = n.toNat / 2 :=
  UInt64.toNat_shiftRight n 1

/-- `product` times `n` factors `base` under `mul`, by repeated squaring from the last binary digit
of `n` to the first.  The last base is not squared again. -/
def powerBy {α : Type} (mul : α → α → α) (product base : α) (n : UInt64) : α :=
  if n = 0 then product
  else
    powerBy mul (if n &&& 1 = 1 then mul product base else product)
      (if 1 < n then mul base base else base) (n >>> 1)
termination_by n.toNat
decreasing_by
  rename_i hne
  have hpos : n.toNat ≠ 0 := fun h => hne (UInt64.toNat_inj.1 h)
  rw [toNat_shiftRight_one]
  omega

namespace Binary64

/-- `fraction · 2^exponent`, with the parts kept apart so that neither overflows on the way. -/
structure Scaled where
  fraction : Float
  exponent : Int

namespace Scaled

/-- The product. -/
def mul (a b : Scaled) : Scaled := ⟨a.fraction * b.fraction, a.exponent + b.exponent⟩

/-- The square of a number with its fraction in `[1/2, 1)`, brought back into this range. -/
def square (a : Scaled) : Scaled :=
  let f := a.fraction * a.fraction
  if f < 0.5 then ⟨f + f, 2 * a.exponent - 1⟩ else ⟨f, 2 * a.exponent⟩

/-- `product · base^n` by repeated squaring, from the last binary digit of `n` to the first.  Once
the exponent of a square is far out of range, nothing but that exponent counts. -/
def mulPower (product base : Scaled) (n : Nat) : Scaled :=
  if h : n = 0 then product
  else if base.exponent < -4096 ∨ 4096 < base.exponent then
    ⟨product.fraction, product.exponent + base.exponent⟩
  else mulPower (if n % 2 = 1 then product.mul base else product) base.square (n / 2)
termination_by n
decreasing_by omega

/-- The reciprocal. -/
def recip (a : Scaled) : Scaled := ⟨1 / a.fraction, -a.exponent⟩

/-- The number nearest to the value. -/
def toFloat (a : Scaled) : Float := scale a.fraction a.exponent

end Scaled

/-- `x` is an odd integer. -/
def isOdd (x : Float) : Bool :=
  match exactValue? x with
  | some value => value.den = 1 ∧ value.num % 2 = 1
  | none => false

/-- The power of a base zero, for an exponent other than zero: odd powers keep the sign. -/
def powZero (x y : Float) : Float :=
  let size := if y < 0 then infinity false else 0
  if isOdd y then copySign size x else size

/-- What a power tends to as its exponent, of the sign of `y`, grows: one for a base of minus
one. -/
def powLimit (x y : Float) : Float :=
  if x == -1 then 1
  else if decide (x.abs < 1) = decide (y > 0) then 0
  else infinity false

/-- The power of an infinity.  A negative one is the reciprocal of a negative zero. -/
def powInfinity (x y : Float) : Float :=
  if x < 0 then powZero (1 / x) (-y)
  else if y < 0 then 0
  else infinity false

/-- The power of a finite base other than zero with a finite exponent: the integer nearest to the
exponent by repeated squaring and the rest by exponential and logarithm. -/
def powFinite (x y : Float) : Float :=
  let whole := trunc y.abs
  let rest := y.abs - whole
  if rest != 0 && x < 0 then notANumber
  else if whole ≥ 9223372036854775808 then powLimit x y
  else
    let (n, part) := if rest > 0.5 then (whole + 1, rest - 1) else (whole, rest)
    let start := if part != 0 then exp (part * log x) else 1
    let (fraction, exponent) := split x
    let power := Scaled.mulPower ⟨start, 0⟩ ⟨fraction, exponent⟩ n.toUInt64.toNat
    if y < 0 then power.recip.toFloat else power.toFloat

/-- The power `x^y` of real numbers.  The exponent zero and the base one give one even with a NaN;
exponents of one half are square roots; a negative base has integer powers only. -/
def pow (x y : Float) : Float :=
  if y == 0 || x == 1 then 1
  else if y == 1 then x
  else if x.isNaN || y.isNaN then notANumber
  else if x == 0 then powZero x y
  else if y.isInf then powLimit x y
  else if x.isInf then powInfinity x y
  else if y == 0.5 then Float.sqrt x
  else if y == -0.5 then 1 / Float.sqrt x
  else powFinite x y

end Binary64

namespace Number

/-- The `n`-th power of an exact number: on the real line, of the parts of its fraction under the
multiplication `mul` of integers. -/
def exactPower (mul : Int → Int → Int) (z : Cartesian Rat) (n : UInt64) : Number :=
  if z.im = 0 then
    ofRat (Rat.divInt (powerBy mul 1 z.re.num n) (powerBy mul 1 (z.re.den : Int) n))
  else .exact (powerBy Cartesian.exactMul ⟨1, 0⟩ z n)

/-- The power of an exact number with an exponent of either sign.  Zero has no negative power. -/
def exactExpt (mul : Int → Int → Int) (z : Cartesian Rat) (e : Int64) : Except NumberError Number :=
  let power := exactPower mul z (exponentSize e)
  if e < 0 then power.recip else .ok power

/-- The multiplication of integers of any size that repeated squaring goes by. -/
def integerMul (i j : Int) : Int := i * j

/-- The inexact power `z^w`: of real numbers where it is real, and `e^(w ln z)` otherwise. -/
def floatPower (z w : Cartesian Float) : Number :=
  if z.isReal && w.isReal && (z.re > 0 || Binary64.isInteger w.re) then
    ofFloat (Binary64.pow z.re w.re)
  else if z.isZero && w.isZero then ofFloat 1
  else if z.isZero && w.re > 0 then ofFloat 0
  else .inexact (w * z.log).exp

/-- The power with an integer exponent of 64 bits, exact for an exact base. -/
def expt (n : Number) (e : Int) : Except NumberError Number :=
  match n with
  | .exact z => exactExpt integerMul z (Int64.ofInt e)
  | .inexact z => .ok (floatPower z (ofInt e).toFloats)

/-- The power `n^m`, exact if `n` is exact and `m` is an exact integer of 64 bits. -/
def pow (n m : Number) : Except NumberError Number :=
  match n, m.int64? with
  | .exact _, some e => n.expt e
  | _, _ => .ok (floatPower n.toFloats m.toFloats)

end Number

end Scheme
