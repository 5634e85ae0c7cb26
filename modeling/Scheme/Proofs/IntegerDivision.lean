import Mathlib
import Scheme.Number.Real

/-!
# Integer division of exact numbers

The quotient is truncated toward zero, so that the remainder has the sign of the dividend.  The
modulo is the same residue with the sign of the divisor: the remainder itself, or the remainder and
the divisor.

* `RealNumber.IsIntegral`: exact reals that are integers;
* `RealNumber.IsIntegerDivision`: what quotient, remainder and modulo are to dividend and divisor;
* `RealNumber.integerDivision_intCast`, `integerDivision_eq_notInteger_iff`,
  `integerDivision_eq_divideByZero_iff`: the three ends that all integer operations have;
* `RealNumber.integer_division`: the main result.
-/

namespace Scheme.RealNumber

/-! ### Residues of integers -/

/-- The quotient `q`, the remainder `r` and the modulo `m` of two integers. -/
structure IsIntegerDivision (a b q r m : Int) : Prop where
  eq_add : a = q * b + r
  remainder_lt : |r| < |b|
  remainder_sign : r = 0 ∨ r.sign = a.sign
  modulo_modEq : m ≡ a [ZMOD b]
  modulo_lt : |m| < |b|
  modulo_sign : m = 0 ∨ m.sign = b.sign
  modulo_eq : m = r ∨ m = r + b

section Residues

variable {a b m : Int}

theorem abs_tmod_lt (a : Int) (hb : b ≠ 0) : |a.tmod b| < |b| := by
  rw [Int.abs_eq_natAbs, Int.abs_eq_natAbs, Int.natAbs_tmod, Nat.cast_lt]
  exact Nat.mod_lt _ (Int.natAbs_pos.2 hb)

/-- A residue of the other sign gets that of the divisor with the divisor added. -/
theorem sign_add_of_sign_ne (hlt : |m| < |b|) (hm : m ≠ 0) (hsign : m.sign ≠ b.sign) :
    |m + b| < |b| ∧ (m + b).sign = b.sign := by
  obtain hb | rfl | hb := lt_trichotomy b 0
  · rw [Int.sign_eq_neg_one_of_neg hb, Ne, Int.sign_eq_neg_one_iff_neg] at hsign
    rw [abs_of_neg hb, abs_lt] at hlt
    have hneg : m + b < 0 := by omega
    rw [abs_of_neg hneg, abs_of_neg hb, Int.sign_eq_neg_one_of_neg hneg,
      Int.sign_eq_neg_one_of_neg hb]
    exact ⟨by omega, rfl⟩
  · rw [abs_zero] at hlt
    exact absurd hlt (abs_nonneg m).not_gt
  · rw [Int.sign_eq_one_of_pos hb, Ne, Int.sign_eq_one_iff_pos] at hsign
    rw [abs_of_pos hb, abs_lt] at hlt
    have hpos : 0 < m + b := by omega
    rw [abs_of_pos hpos, abs_of_pos hb, Int.sign_eq_one_of_pos hpos, Int.sign_eq_one_of_pos hb]
    exact ⟨by omega, rfl⟩

theorem intModulo_cases (hb : b ≠ 0) :
    (intModulo a b = a.tmod b ∧ (a.tmod b = 0 ∨ (a.tmod b).sign = b.sign)) ∨
    (intModulo a b = a.tmod b + b ∧ |a.tmod b + b| < |b| ∧ (a.tmod b + b).sign = b.sign) := by
  unfold intModulo
  by_cases h : a.tmod b ≠ 0 ∧ (a.tmod b).sign ≠ b.sign
  · exact Or.inr ⟨if_pos h, sign_add_of_sign_ne (abs_tmod_lt a hb) h.1 h.2⟩
  · rw [not_and_or, not_not, not_not] at h
    exact Or.inl ⟨if_neg (by rwa [not_and_or, not_not, not_not]), h⟩

/-- **Division of integers.** -/
theorem isIntegerDivision (a : Int) (hb : b ≠ 0) :
    IsIntegerDivision a b (a.tdiv b) (a.tmod b) (intModulo a b) := by
  have hdiv : b ∣ a - a.tmod b := ⟨a.tdiv b, by rw [Int.tmod_def, sub_sub_cancel]⟩
  have hr : a.tmod b = 0 ∨ (a.tmod b).sign = a.sign := by
    have hsign := Int.sign_tmod a b
    split_ifs at hsign
    · exact Or.inl (Int.sign_eq_zero_iff_zero.1 hsign)
    · exact Or.inr hsign
  have heq : a = a.tdiv b * b + a.tmod b := (Int.tdiv_mul_add_tmod a b).symm
  obtain ⟨hm, hsign⟩ | ⟨hm, hlt, hsign⟩ := intModulo_cases (a := a) hb
  · rw [hm]
    exact ⟨heq, abs_tmod_lt a hb, hr, Int.modEq_iff_dvd.2 hdiv, abs_tmod_lt a hb, hsign, Or.inl rfl⟩
  · have hdiv' : b ∣ a - (a.tmod b + b) := by
      rw [← sub_sub]
      exact dvd_sub hdiv dvd_rfl
    rw [hm]
    exact ⟨heq, abs_tmod_lt a hb, hr, Int.modEq_iff_dvd.2 hdiv', hlt, Or.inr hsign, Or.inr rfl⟩

end Residues

/-! ### Operations on exact reals -/

/-- The exact real is an integer. -/
def IsIntegral (x : Rat) : Prop := ∃ i : Int, x = i

theorem isIntegral_iff {x : Rat} : IsIntegral x ↔ x.den = 1 := by
  constructor
  · rintro ⟨i, rfl⟩
    exact Rat.den_intCast i
  · intro h
    exact ⟨x.num, (Rat.coe_int_num_of_den_eq_one h).symm⟩

instance : DecidablePred IsIntegral := fun _ => decidable_of_iff _ isIntegral_iff.symm

section Operations

variable (onInt : Int → Int → Int) (onFloat : Float → Float → Float) (x y : Rat)

theorem integerDivision_exact : integerDivision onInt onFloat (.exact x) (.exact y) =
    if IsIntegral x ∧ IsIntegral y then
      if y = 0 then .error .divideByZero else .ok (.exact (onInt x.num y.num))
    else .error .notInteger := by
  simp only [isIntegral_iff, ← Rat.num_eq_zero (q := y), integerDivision, combine, ← not_and_or,
    ite_not]

/-- **Operands that are no integers** fail, whatever the divisor is. -/
theorem integerDivision_eq_notInteger_iff :
    integerDivision onInt onFloat (.exact x) (.exact y) = .error .notInteger ↔
      ¬ (IsIntegral x ∧ IsIntegral y) := by
  rw [integerDivision_exact]
  split_ifs with h <;> simp [h]

/-- **An integer divided by zero** fails. -/
theorem integerDivision_eq_divideByZero_iff :
    integerDivision onInt onFloat (.exact x) (.exact y) = .error .divideByZero ↔
      IsIntegral x ∧ IsIntegral y ∧ y = 0 := by
  rw [integerDivision_exact, ← and_assoc]
  split_ifs with h hy <;> simp_all

/-- **Integers** and a divisor other than zero have an exact result. -/
theorem integerDivision_intCast (a : Int) {b : Int} (hb : b ≠ 0) :
    integerDivision onInt onFloat (.exact a) (.exact b) = .ok (.exact (onInt a b)) := by
  have hints : IsIntegral (a : Rat) ∧ IsIntegral (b : Rat) := ⟨⟨a, rfl⟩, b, rfl⟩
  rw [integerDivision_exact, if_pos hints, if_neg (Int.cast_ne_zero.2 hb), Rat.num_intCast,
    Rat.num_intCast]

end Operations

/-- **Integer division of exact numbers.**  Quotient, remainder and modulo of two exact reals fail
for operands that are not both integers, else for a divisor zero, and in no other case.  Of integers
they are exact integers: the quotient and a remainder below the divisor and with the sign of the
dividend make up the dividend, and the modulo is the residue with the sign of the divisor. -/
theorem integer_division :
    (∀ x y : Rat, ∀ op ∈ [quotient, remainder, modulo],
      (op (.exact x) (.exact y) = .error .notInteger ↔ ¬ (IsIntegral x ∧ IsIntegral y)) ∧
      (op (.exact x) (.exact y) = .error .divideByZero ↔ IsIntegral x ∧ IsIntegral y ∧ y = 0)) ∧
    ∀ a b : Int, b ≠ 0 → ∃ q r m : Int,
      quotient (.exact a) (.exact b) = .ok (.exact q) ∧
      remainder (.exact a) (.exact b) = .ok (.exact r) ∧
      modulo (.exact a) (.exact b) = .ok (.exact m) ∧
      IsIntegerDivision a b q r m := by
  refine ⟨fun x y op hop => ?_, fun a b hb => ?_⟩
  · have hfail (onInt : Int → Int → Int) (onFloat : Float → Float → Float) :=
      And.intro (integerDivision_eq_notInteger_iff onInt onFloat x y)
        (integerDivision_eq_divideByZero_iff onInt onFloat x y)
    simp only [List.mem_cons, List.not_mem_nil, or_false] at hop
    obtain rfl | rfl | rfl := hop
    · exact hfail _ _
    · exact hfail _ _
    · exact hfail _ _
  · exact ⟨_, _, _, integerDivision_intCast _ _ a hb, integerDivision_intCast _ _ a hb,
      integerDivision_intCast _ _ a hb, isIntegerDivision a hb⟩

/-- Thirteen divided by minus four, with the remainder `1` and the modulo `-3`. -/
theorem integer_division_negative :
    (-4 : Int) ≠ 0 ∧ remainder (.exact (13 : Int)) (.exact (-4 : Int)) = .ok (.exact (1 : Int)) ∧
      modulo (.exact (13 : Int)) (.exact (-4 : Int)) = .ok (.exact (-3 : Int)) ∧
      IsIntegerDivision 13 (-4) (-3) 1 (-3) := by
  have hb : (-4 : Int) ≠ 0 := by decide
  have hcast {i j : Int} (h : (.ok (.exact i) : Except NumberError RealNumber) = .ok (.exact j)) :
      i = j :=
    Int.cast_injective (RealNumber.exact.inj (Except.ok.inj h))
  obtain ⟨q, r, m, hq, hr, hm, hdivision⟩ := integer_division.2 13 (-4) hb
  obtain rfl : q = -3 := hcast hq.symm
  obtain rfl : r = 1 := hcast hr.symm
  obtain rfl : m = -3 := hcast hm.symm
  exact ⟨hb, hr, hm, hdivision⟩

end Scheme.RealNumber
