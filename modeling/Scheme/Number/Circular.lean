import Scheme.Number.Polynomial

/-!
# Circular functions of real numbers

An angle is reduced to the nearest multiple of a quarter turn and a rest of at most an eighth of a
turn; on the rest, sine and cosine are polynomials.  The inverse functions rest on the arctangent.

* `ReducedAngle.ofAngle`: quadrant and rest, by subtraction of multiples of `π/4` in three parts,
  and for large angles by the product with the binary digits of `4/π`;
* `Binary64.sin`, `Binary64.cos`: by quadrant;
* `Binary64.atan`: a quotient of polynomials after a reduction to `|x| ≤ 0.66`;
* `Binary64.atan2`, `Binary64.asin`, `Binary64.acos`: from the arctangent.
-/

namespace Scheme

/-- An angle as `quadrant` quarter turns, of four, and a rest in radians. -/
structure ReducedAngle where
  quadrant : Nat
  rest : Float

namespace ReducedAngle

/-- The angles from here on are reduced with the digits of `4/π`. -/
def largeAngle : Float := 536870912

/-- The reduction to the nearest multiple of a quarter turn.  The multiples of `π/4` are subtracted
in three parts, the first two short enough for an exact product. -/
def ofSmallAngle (x : Float) : ReducedAngle :=
  let eighths := (x * 1.27323954473516268615).toUInt64.toNat
  let even := eighths + eighths % 2
  let y := Float.ofNat even
  let rest :=
    x - y * 7.85398125648498535156e-1 - y * 3.77489470793079817668e-8
      - y * 2.69515142907905952645e-15
  ⟨even / 2 % 4, rest⟩

/-- The integer part of `2^1216 · 4/π`, in words of 64 bits, the leading one first. -/
def fourOverPiWords : List Nat :=
  [0x0000000000000001, 0x45f306dc9c882a53, 0xf84eafa3ea69bb81, 0xb6c52b3278872083,
    0xfca2c757bd778ac3, 0x6e48dc74849ba5c0, 0x0c925dd413a32439, 0xfc3bd63962534e7d,
    0xd1046bea5d768909, 0xd338e04d68befc82, 0x7323ac7306a673e9, 0x3908bf177bf25076,
    0x3ff12fffbc0b301f, 0xde5e2316b414da3e, 0xda6cfd9e4f96136e, 0x9e8c7ecd3cbfd45a,
    0xea4f758fd7cbe2f6, 0x7a0e73ef14a525d4, 0xd7f6bf623f1aba10, 0xac06608df8f6d757]

/-- The integer part of `2^1216 · 4/π`. -/
def fourOverPi : Nat := fourOverPiWords.foldl (fun value word => value * wordBound + word) 0

/-- The bits of the fraction `high / 2^64`, whose mantissa is continued by the leading bits of `low`
where zeros at its start make room. -/
def fractionBits (high low : Nat) : Nat :=
  let shift := if high = 0 then 65 else 64 - Nat.log2 high
  let continued := if shift ≤ 64 then low / twoPow (64 - shift) else 0
  (1023 - shift) * twoPow 52 + ((high * twoPow shift % wordBound) ||| continued) / twoPow 12

/-- The reduction of `m · 2^q` by its product with `4/π`, of which the 192 bits are used that stand
around the binary point: three bits of whole eighths of a turn and the fraction. -/
def ofProduct (m : Nat) (q : Int) : ReducedAngle :=
  let window := fourOverPi / twoPow (1027 - q).toNat % twoPow 192
  let product := window * m / wordBound % twoPow 128
  let eighths := product / twoPow 125
  let fraction := Binary64.ofBits false
    (fractionBits (product / twoPow 61 % wordBound) (product % wordBound))
  let rest := if eighths % 2 = 1 then fraction - 1 else fraction
  ⟨(eighths + 1) / 2 % 4, rest * 0.785398163397448309615660845819875721⟩

/-- The reduction of a finite angle that is not negative. -/
def ofAngle (x : Float) : ReducedAngle :=
  if x < largeAngle then ofSmallAngle x
  else
    match Binary64.ofFloat x with
    | .finite _ m q => ofProduct m q
    | _ => ⟨0, x⟩

end ReducedAngle

namespace Binary64

/-- The length of a half turn. -/
def pi : Float := 3.14159265358979323846264338327950288

/-- The length of three eighths of a turn. -/
def threeEighthsTurn : Float := 2.35619449019234492884698253745962716

/-! ### Sine and cosine -/

/-- The coefficients of `(sin z - z) / z³` in `z²`. -/
def sinSeries : List Float :=
  [1.58962301576546568060e-10, -2.50507477628578072866e-8, 2.75573136213857245213e-6,
    -1.98412698295895385996e-4, 8.33333333332211858878e-3, -1.66666666666666307295e-1]

/-- The coefficients of `(cos z - 1 + z²/2) / z⁴` in `z²`. -/
def cosSeries : List Float :=
  [-1.13585365213876817300e-11, 2.08757008419747316778e-9, -2.75573141792967388112e-7,
    2.48015872888517045348e-5, -1.38888888888730564116e-3, 4.16666666666665929218e-2]

/-- The sine of at most an eighth of a turn. -/
def sinSmall (z : Float) : Float :=
  let square := z * z
  z + z * square * horner sinSeries square

/-- The cosine of at most an eighth of a turn. -/
def cosSmall (z : Float) : Float :=
  let square := z * z
  1 - 0.5 * square + square * square * horner cosSeries square

/-- The sine of a reduced angle. -/
def sinReduced (r : ReducedAngle) : Float :=
  match r.quadrant with
  | 0 => sinSmall r.rest
  | 1 => cosSmall r.rest
  | 2 => -sinSmall r.rest
  | _ => -cosSmall r.rest

/-- The cosine of a reduced angle: its sine a quarter turn on. -/
def cosReduced (r : ReducedAngle) : Float :=
  sinReduced ⟨(r.quadrant + 1) % 4, r.rest⟩

/-- The sine; it keeps the sign of zero, and infinities have none. -/
def sin (x : Float) : Float :=
  if x == 0 || x.isNaN then x
  else if x.isInf then notANumber
  else if x < 0 then -sinReduced (.ofAngle (-x))
  else sinReduced (.ofAngle x)

/-- The cosine; infinities have none. -/
def cos (x : Float) : Float :=
  if x.isNaN || x.isInf then notANumber else cosReduced (.ofAngle x.abs)

/-! ### Inverse functions -/

/-- The numerator of the arctangent near zero, beyond its linear term. -/
def atanNumerator : List Float :=
  [-8.750608600031904122785e-01, -1.615753718733365076637e+01, -7.500855792314704667340e+01,
    -1.228866684490136173410e+02, -6.485021904942025371773e+01]

/-- The denominator of the arctangent near zero, beyond its linear term. -/
def atanDenominator : List Float :=
  [1, 2.485846490142306297962e+01, 1.650270098316988542046e+02, 4.328810604912902668951e+02,
    4.853903996359136964868e+02, 1.945506571482613964425e+02]

/-- The arctangent for `|x| ≤ 0.66`. -/
def atanSmall (x : Float) : Float :=
  let z := x * x
  x * (z * horner atanNumerator z / horner atanDenominator z) + x

/-- What a quarter of a turn has beyond its nearest number. -/
def quarterTurnRest : Float := 6.123233995736765886130e-17

/-- The arctangent of a positive number.  For large numbers it is a quarter turn less the arctangent
of the reciprocal, and for those around one an eighth of a turn and a small angle. -/
def atanPositive (x : Float) : Float :=
  if x ≤ 0.66 then atanSmall x
  else if x > 2.41421356237309504880 then pi / 2 - atanSmall (1 / x) + quarterTurnRest
  else pi / 4 + atanSmall ((x - 1) / (x + 1)) + 0.5 * quarterTurnRest

/-- The arctangent. -/
def atan (x : Float) : Float :=
  if x == 0 then x
  else if x > 0 then atanPositive x
  else -atanPositive (-x)

/-- The angle of the point with ordinate `y` and abscissa `x`.  On the axes and at infinity the
signs of both count, also those of zeros. -/
def atan2 (y x : Float) : Float :=
  if y.isNaN || x.isNaN then notANumber
  else if y == 0 then copySign (if isNegative x then pi else 0) y
  else if x == 0 then copySign (pi / 2) y
  else if isInfinity false x then copySign (if y.isInf then pi / 4 else 0) y
  else if isInfinity true x then copySign (if y.isInf then threeEighthsTurn else pi) y
  else if y.isInf then copySign (pi / 2) y
  else
    let q := atan (y / x)
    if x < 0 then (if q ≤ 0 then q + pi else q - pi) else q

/-- The arcsine of a number that is not negative. -/
def asinPositive (x : Float) : Float :=
  if x > 1 then notANumber
  else
    let cosine := Float.sqrt (1 - x * x)
    if x > 0.7 then pi / 2 - atanPositive (cosine / x) else atanPositive (x / cosine)

/-- The arcsine; it keeps the sign of zero. -/
def asin (x : Float) : Float :=
  if x == 0 then x
  else if x < 0 then -asinPositive (-x)
  else asinPositive x

/-- The arccosine, as the rest of the arcsine to a quarter turn. -/
def acos (x : Float) : Float := pi / 2 - asin x

end Binary64

end Scheme
