import Mathlib
import Scheme.Eval.Prelude

/-!
# Powers of exact numbers

An exact number is a complex number with rational parts, and its power by an exponent of 64 bits is
the power of that complex number.  Repeated squaring takes the exponent as a word without a sign,
which is its size also for the least exponent, although that exponent is its own negative within 64
bits.

* `Cartesian.toComplex`: the complex number with the same parts;
* `toNat_exponentSize`: the word of an exponent is its size;
* `map_powerBy`: what repeated squaring comes to, from what a round of it keeps;
* `Number.IsExactPower`: a result is the exact power, or the failure where there is none;
* `Number.expt_isExactPower`: exponents of 64 bits, `Number.pow_integer`: all integer exponents.
-/

namespace Scheme

/-! ### Exact numbers as complex numbers -/

namespace Cartesian

/-- The complex number with the same parts. -/
def toComplex (z : Cartesian Rat) : ℂ := ⟨z.re, z.im⟩

theorem toComplex_one : toComplex ⟨1, 0⟩ = 1 := by
  apply Complex.ext <;> simp [toComplex]

theorem toComplex_real (x : Rat) : toComplex ⟨x, 0⟩ = (x : ℂ) := by
  apply Complex.ext <;> simp [toComplex]

theorem toComplex_eq_zero_iff {z : Cartesian Rat} : z.toComplex = 0 ↔ z = ⟨0, 0⟩ := by
  obtain ⟨x, y⟩ := z
  simp [toComplex, Complex.ext_iff]

/-- The product on the real line is the product by parts. -/
theorem exactMul_eq_mul (z w : Cartesian Rat) : z.exactMul w = z * w := by
  unfold exactMul
  split_ifs with h
  · show _ = (⟨_, _⟩ : Cartesian Rat)
    simp [h.1, h.2]
  · rfl

theorem toComplex_exactMul (z w : Cartesian Rat) :
    (z.exactMul w).toComplex = z.toComplex * w.toComplex := by
  rw [exactMul_eq_mul]
  show toComplex ⟨_, _⟩ = _
  apply Complex.ext <;> simp [toComplex]

/-- The quotient by a divisor other than zero.  For a real divisor the general formula loses a
factor. -/
theorem toComplex_exactDiv {w : Cartesian Rat} (z : Cartesian Rat) (hw : w ≠ ⟨0, 0⟩) :
    (z.exactDiv w).toComplex = z.toComplex / w.toComplex := by
  rw [eq_div_iff (fun h => hw (toComplex_eq_zero_iff.1 h))]
  obtain ⟨a, b⟩ := z
  obtain ⟨c, d⟩ := w
  unfold exactDiv
  by_cases hd : d = 0
  · have hc : (c : ℝ) ≠ 0 := by
      rintro hc
      exact hw (by rw [hd, Rat.cast_eq_zero.1 hc])
    rw [if_pos hd]
    apply Complex.ext <;> simp [toComplex, hd, hc]
  · have hnorm : (c : ℝ) * c + d * d ≠ 0 := by
      have hpos : 0 < (d : ℝ) * d := mul_self_pos.2 (Rat.cast_ne_zero.2 hd)
      exact (add_pos_of_nonneg_of_pos (mul_self_nonneg _) hpos).ne'
    rw [if_neg hd]
    apply Complex.ext
    · simp only [toComplex, Complex.mul_re, Rat.cast_div, Rat.cast_add, Rat.cast_sub, Rat.cast_mul]
      field_simp
      ring
    · simp only [toComplex, Complex.mul_im, Rat.cast_div, Rat.cast_add, Rat.cast_sub, Rat.cast_mul]
      field_simp
      ring

end Cartesian

/-! ### Repeated squaring -/

/-- **The size of an exponent.**  The least exponent is its own negative within 64 bits, and as a
word without a sign it is its size. -/
theorem toNat_exponentSize (e : Int64) : (exponentSize e).toNat = e.toInt.natAbs := by
  have htoInt : e.toInt = if 2 * e.toBitVec.toNat < 2 ^ 64 then (e.toBitVec.toNat : Int)
      else e.toBitVec.toNat - (2 ^ 64 : Nat) := BitVec.toInt_eq_toNat_cond e.toBitVec
  have hlt : e.toBitVec.toNat < 2 ^ 64 := e.toBitVec.isLt
  have hneg : (-e).toUInt64.toNat = (2 ^ 64 - e.toBitVec.toNat) % 2 ^ 64 :=
    BitVec.toNat_neg e.toBitVec
  have hsame : e.toUInt64.toNat = e.toBitVec.toNat := rfl
  unfold exponentSize
  by_cases he : e < 0
  · have hsign : e.toInt < 0 := Int64.lt_iff_toInt_lt.1 he
    rw [if_pos he, hneg]
    split_ifs at htoInt <;> omega
  · have hsign : ¬ e.toInt < 0 := fun h => he (Int64.lt_iff_toInt_lt.2 h)
    rw [if_neg he, hsame]
    split_ifs at htoInt <;> omega

section Squaring

variable {α M : Type} [Monoid M] {f : α → M} {mul : α → α → α}

/-- **A round of repeated squaring** keeps the product of what has been multiplied and of what is
left. -/
theorem map_round (hmul : ∀ a b, f (mul a b) = f a * f b) (product base : α) (n : UInt64) :
    f (if n &&& 1 = 1 then mul product base else product) *
      f (if 1 < n then mul base base else base) ^ (n >>> 1).toNat =
      f product * f base ^ n.toNat := by
  have hodd : n &&& 1 = 1 ↔ n.toNat % 2 = 1 := by
    rw [← UInt64.toNat_inj, UInt64.toNat_and]
    exact Nat.and_one_is_mod n.toNat ▸ Iff.rfl
  have hsquare : f (if 1 < n then mul base base else base) ^ (n.toNat / 2) =
      f base ^ (2 * (n.toNat / 2)) := by
    split_ifs with h
    · rw [hmul, ← pow_two, ← pow_mul]
    · have hone : ¬ 1 < n.toNat := fun h' => h (UInt64.lt_iff_toNat_lt.2 h')
      have hzero : n.toNat / 2 = 0 := by omega
      rw [hzero, Nat.mul_zero]
  rw [toNat_shiftRight_one, hsquare]
  split_ifs with h
  · have hn : 2 * (n.toNat / 2) + 1 = n.toNat := by
      have hlast := hodd.1 h
      omega
    rw [hmul, mul_assoc, ← pow_succ', hn]
  · have hn : 2 * (n.toNat / 2) = n.toNat := by
      have hlast := mt hodd.2 h
      omega
    rw [hn]

/-- **Repeated squaring** multiplies by a power. -/
theorem map_powerBy (hmul : ∀ a b, f (mul a b) = f a * f b) (product base : α) (n : UInt64) :
    f (powerBy mul product base n) = f product * f base ^ n.toNat := by
  fun_induction powerBy mul product base n with
  | case1 product base => rw [UInt64.toNat_zero, pow_zero, mul_one]
  | case2 product base n hn ih =>
    simp only [dite_eq_ite] at ih
    rw [ih, map_round hmul]

end Squaring

/-! ### Exact powers -/

namespace Number

/-- The result is the exact power of the base, or the failure of a negative power of zero. -/
def IsExactPower (r : Except NumberError Number) (z : Cartesian Rat) (e : Int) : Prop :=
  if z = ⟨0, 0⟩ ∧ e < 0 then r = .error .divideByZero
  else ∃ w, r = .ok (.exact w) ∧ w.toComplex = z.toComplex ^ e

section Multiplication

-- all that repeated squaring needs to know of the multiplication of integers
variable {mul : Int → Int → Int} (hmul : ∀ i j, mul i j = i * j)

include hmul

/-- The power of a fraction is the fraction of the powers of its parts. -/
theorem divInt_powerBy (x : Rat) (n : UInt64) :
    Rat.divInt (powerBy mul 1 x.num n) (powerBy mul 1 (x.den : Int) n) = x ^ n.toNat := by
  have hpower (i : Int) : powerBy mul 1 i n = i ^ n.toNat := by
    have hmap : id (powerBy mul 1 i n) = id 1 * id i ^ n.toNat := map_powerBy hmul 1 i n
    rwa [id, id, id, one_mul] at hmap
  rw [hpower, hpower, Rat.divInt_eq_div, Int.cast_pow, Int.cast_pow, Int.cast_natCast, ← div_pow,
    Rat.num_div_den]

theorem exists_exactPower (z : Cartesian Rat) (n : UInt64) :
    ∃ w, exactPower mul z n = .exact w ∧ w.toComplex = z.toComplex ^ n.toNat := by
  unfold exactPower
  split_ifs with him
  · obtain ⟨x, y⟩ := z
    obtain rfl : y = 0 := him
    refine ⟨⟨x ^ n.toNat, 0⟩, ?_, ?_⟩
    · rw [divInt_powerBy hmul]
      rfl
    · rw [Cartesian.toComplex_real, Cartesian.toComplex_real, Rat.cast_pow]
  · refine ⟨_, rfl, ?_⟩
    rw [map_powerBy Cartesian.toComplex_exactMul, Cartesian.toComplex_one, one_mul]

end Multiplication

theorem div_exact (z w : Cartesian Rat) : (Number.exact z).div (.exact w) =
    if w = ⟨0, 0⟩ then .error .divideByZero else .ok (.exact (z.exactDiv w)) := by
  obtain ⟨x, y⟩ := w
  simp only [div, isExact, isZero, Bool.true_and, decide_eq_true_eq, Cartesian.mk.injEq]
  rfl

theorem recip_exact (w : Cartesian Rat) : (Number.exact w).recip =
    if w = ⟨0, 0⟩ then .error .divideByZero else .ok (.exact (Cartesian.exactDiv ⟨1, 0⟩ w)) :=
  div_exact ⟨1, 0⟩ w

/-- **A power with an exponent of 64 bits** is the power by the size of the exponent, or its
reciprocal. -/
theorem exactExpt_isExactPower {mul : Int → Int → Int} (hmul : ∀ i j, mul i j = i * j)
    (z : Cartesian Rat) (e : Int64) : IsExactPower (exactExpt mul z e) z e.toInt := by
  obtain ⟨w, hw, hpower⟩ := exists_exactPower hmul z (exponentSize e)
  rw [toNat_exponentSize] at hpower
  unfold IsExactPower exactExpt
  rw [hw]
  by_cases he : e < 0
  · have hneg : e.toInt < 0 := Int64.lt_iff_toInt_lt.1 he
    have hsize : z.toComplex ^ e.toInt = (z.toComplex ^ e.toInt.natAbs)⁻¹ := by
      rw [← zpow_natCast, ← zpow_neg, Int.ofNat_natAbs_of_nonpos hneg.le, neg_neg]
    have hzero : w = ⟨0, 0⟩ ↔ z = ⟨0, 0⟩ := by
      rw [← Cartesian.toComplex_eq_zero_iff, hpower, pow_eq_zero_iff (by omega),
        Cartesian.toComplex_eq_zero_iff]
    rw [if_pos he, recip_exact]
    by_cases hz : z = ⟨0, 0⟩
    · rw [if_pos (hzero.2 hz), if_pos ⟨hz, hneg⟩]
    · have hw0 : w ≠ ⟨0, 0⟩ := mt hzero.1 hz
      rw [if_neg hw0, if_neg (fun h => hz h.1)]
      refine ⟨_, rfl, ?_⟩
      rw [Cartesian.toComplex_exactDiv _ hw0, Cartesian.toComplex_one, hpower, hsize, one_div]
  · have hpos : ¬ e.toInt < 0 := fun h => he (Int64.lt_iff_toInt_lt.2 h)
    rw [if_neg he, if_neg (fun h => hpos h.2)]
    refine ⟨w, rfl, ?_⟩
    rw [hpower, ← zpow_natCast, Int.natAbs_of_nonneg (not_lt.1 hpos)]

/-- **Integer powers are exact.**  For every exact number and every exponent of 64 bits, the least
one included, the power fails exactly for a negative power of zero, and is otherwise the exact
number that is the power of the base.  The word of the exponent that repeated squaring goes by is
its size. -/
theorem expt_isExactPower (z : Cartesian Rat) (e : Int64) :
    IsExactPower (expt (.exact z) e.toInt) z e.toInt ∧ (exponentSize e).toNat = e.toInt.natAbs := by
  refine ⟨?_, toNat_exponentSize e⟩
  unfold expt
  rw [Int64.ofInt_toInt]
  exact exactExpt_isExactPower (fun _ _ => rfl) z e

/-! ### Exponents of any size -/

theorem int64?_ofInt (m : Int) :
    (ofInt m).int64? = if -2 ^ 63 ≤ m ∧ m < 2 ^ 63 then some m else none := by
  have hint : (ofInt m).int? = some m := by simp [ofInt, ofRat, int?]
  have hfits : fitsSigned m = decide (-2 ^ 63 ≤ m ∧ m < 2 ^ 63) := (Bool.decide_and _ _).symm
  unfold int64?
  rw [hint, Option.filter_some, hfits]
  simp only [decide_eq_true_eq]

/-- A power by way of inexact numbers is inexact. -/
theorem exists_floatPower (z w : Cartesian Float) : ∃ v, floatPower z w = .inexact v := by
  unfold floatPower
  split_ifs <;> exact ⟨_, rfl⟩

theorem pow_of_fits (z : Cartesian Rat) {m : Int} (h : -2 ^ 63 ≤ m ∧ m < 2 ^ 63) :
    pow (.exact z) (ofInt m) = exactExpt integerMul z (Int64.ofInt m) := by
  unfold pow
  rw [int64?_ofInt, if_pos h]
  rfl

theorem pow_beyond (z : Cartesian Rat) {m : Int} (h : ¬ (-2 ^ 63 ≤ m ∧ m < 2 ^ 63)) :
    ∃ w, pow (.exact z) (ofInt m) = .ok (.inexact w) := by
  unfold pow
  rw [int64?_ofInt, if_neg h]
  obtain ⟨w, hw⟩ := exists_floatPower (toFloats (.exact z)) (toFloats (ofInt m))
  exact ⟨w, congrArg Except.ok hw⟩

/-- **An integer power is exact as far as the exponent fits into 64 bits.**  For every exact number
and every integer: an exponent of 64 bits has the exact power, or the failure of a negative power of
zero, and every other exponent has an inexact result.  The procedure `expt` gives what the power
is. -/
theorem pow_integer (z : Cartesian Rat) (m : Int) :
    (if -2 ^ 63 ≤ m ∧ m < 2 ^ 63 then IsExactPower (pow (.exact z) (ofInt m)) z m
      else ∃ w, pow (.exact z) (ofInt m) = .ok (.inexact w)) ∧
    ∀ stamp, Primitive.expt.shape.run stamp [.number (.exact z), .number (ofInt m)] =
      (Prelude.lift (pow (.exact z) (ofInt m))).map fun n => .give (.number n) := by
  constructor
  · split_ifs with h
    · have hpower : IsExactPower (exactExpt integerMul z (Int64.ofInt m)) z _ :=
        exactExpt_isExactPower (fun _ _ => rfl) z (Int64.ofInt m)
      rwa [Int64.toInt_ofInt_of_le h.1 h.2, ← pow_of_fits z h] at hpower
    · exact pow_beyond z h
  · intro stamp
    rfl

/-- The power of one by `2^63` is inexact. -/
theorem not_isExactPower_beyond :
    ¬ IsExactPower (pow (ofInt 1) (ofInt (2 ^ 63))) ⟨1, 0⟩ (2 ^ 63) := by
  obtain ⟨v, hv⟩ := pow_beyond ⟨1, 0⟩ (m := 2 ^ 63) (by decide)
  have hone : ofInt 1 = .exact ⟨1, 0⟩ := rfl
  rw [hone, hv]
  rintro ⟨w, hw, -⟩
  cases hw

end Number

end Scheme
