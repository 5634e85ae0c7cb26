import Mathlib
import Scheme.Number.Digits
import Scheme.Number.Shortest
import Scheme.Proofs.FloatBits

/-!
# Rounding to the nearest number

The bits of the nearest number depend on the rounded value only, not on the fraction or the decimal
by which it is given, and a value that a number has is rounded to that number.

* `nearestBits_congr`: equal fractions are rounded to the same bits;
* `nearestBits_canonical`: the value of a finite number is rounded to its bits;
* `decimalBits_eq`: a decimal is rounded as the fraction it stands for, also beyond the bounds
  between which its power of ten is formed;
* `Decimal.bits_shortest`: the shortest decimal of a number is rounded to that number;
* `Decimal.order_bounds`: how large and how small a decimal of a finite number can be.
-/

namespace Scheme

/-! ### Quotients -/

namespace Rounding

theorem divNearestEven_mul_right (num den : Nat) {k : Nat} (hk : 0 < k) :
    divNearestEven (num * k) (den * k) = divNearestEven num den := by
  have h (a b : Nat) : 2 * (a * k) < b * k ↔ 2 * a < b := by
    rw [← Nat.mul_assoc, Nat.mul_lt_mul_right hk]
  have h' (a b : Nat) : b * k < 2 * (a * k) ↔ b < 2 * a := by
    rw [← Nat.mul_assoc, Nat.mul_lt_mul_right hk]
  simp only [divNearestEven, Nat.mul_div_mul_right _ _ hk, Nat.mul_mod_mul_right, h, h']

theorem divNearestEven_congr {num den num' den' : Nat} (hd : 0 < den) (hd' : 0 < den')
    (h : num * den' = num' * den) : divNearestEven num den = divNearestEven num' den' := by
  rw [← divNearestEven_mul_right num den hd', h, Nat.mul_comm den,
    divNearestEven_mul_right num' den' hd]

theorem divNearestEven_mul_self (m : Nat) {den : Nat} (hd : 0 < den) :
    divNearestEven (m * den) den = m := by
  simp [divNearestEven, Nat.mul_div_cancel m hd, hd]

theorem div_le_divNearestEven (num den : Nat) : num / den ≤ divNearestEven num den := by
  simp only [divNearestEven]
  split_ifs <;> omega

theorem divNearestEven_eq_zero {num den : Nat} (h : 2 * num < den) :
    divNearestEven num den = 0 := by
  have hlt : num < den := by omega
  simp [divNearestEven, Nat.mod_eq_of_lt hlt, Nat.div_eq_of_lt hlt, h]

end Rounding

namespace Binary64

open Rounding

/-! ### Fractions -/

@[simp] theorem twoPow_zero : twoPow 0 = 1 := rfl

@[simp] theorem tenPow_zero : tenPow 0 = 1 := rfl

theorem twoPow_succ (n : Nat) : twoPow (n + 1) = 2 * twoPow n := pow_succ' 2 n

theorem twoPow_pos (n : Nat) : 0 < twoPow n := Nat.pow_pos (by decide)

theorem zpow_eq_div (a : Nat) (q : Int) :
    (a : ℚ) ^ q = ((a ^ q.toNat : Nat) : ℚ) / ((a ^ (-q).toNat : Nat) : ℚ) := by
  obtain ⟨n, rfl | rfl⟩ := q.eq_nat_or_neg
  · simp
  · simp

theorem zpow_le_div_iff {num den : Nat} (hd : 0 < den) (q : Int) :
    (2 : ℚ) ^ q ≤ num / den ↔ den * twoPow q.toNat ≤ num * twoPow (-q).toNat := by
  have hz : (2 : ℚ) ^ q = _ := zpow_eq_div 2 q
  rw [hz, div_le_div_iff₀ (by positivity) (by positivity), mul_comm (den : Nat)]
  norm_cast

/-- The binary logarithm of a fraction is that of its value. -/
theorem binaryLog_eq {num den : Nat} (hn : 0 < num) (hd : 0 < den) :
    binaryLog num den = Int.log 2 ((num : ℚ) / den) := by
  have hv : (0 : ℚ) < num / den := by positivity
  obtain ⟨a, ha⟩ : ∃ a, Nat.log2 num = a := ⟨_, rfl⟩
  obtain ⟨b, hb⟩ : ∃ b, Nat.log2 den = b := ⟨_, rfl⟩
  obtain ⟨hnlo, hnhi⟩ := (Nat.log2_eq_iff hn.ne').1 ha
  obtain ⟨hdlo, hdhi⟩ := (Nat.log2_eq_iff hd.ne').1 hb
  -- the lengths of the two parts leave two candidates
  have hlow : (2 : ℚ) ^ ((a : Int) - b - 1) ≤ num / den := by
    rw [sub_sub, zpow_sub₀ two_ne_zero, div_le_div_iff₀ (by positivity) (by positivity)]
    norm_cast
    exact Nat.mul_le_mul hnlo hdhi.le
  have hhigh : (num : ℚ) / den < 2 ^ ((a : Int) - b + 1) := by
    rw [sub_add_eq_add_sub, zpow_sub₀ two_ne_zero, div_lt_div_iff₀ (by positivity) (by positivity)]
    norm_cast
    exact Nat.mul_lt_mul_of_lt_of_le hnhi hdlo (by positivity)
  -- and the comparison in the definition decides between them
  have hreached : (if (0 : Int) ≤ (a : Int) - b then
        decide (den * twoPow ((a : Int) - b).toNat ≤ num)
      else decide (den ≤ num * twoPow (-((a : Int) - b)).toNat)) = true ↔
      (2 : ℚ) ^ ((a : Int) - b) ≤ num / den := by
    rw [zpow_le_div_iff hd]
    split_ifs with h0
    · have hzero : (-((a : Int) - b)).toNat = 0 := by omega
      rw [hzero, twoPow_zero, Nat.mul_one, decide_eq_true_iff]
    · have hzero : ((a : Int) - b).toNat = 0 := by omega
      rw [hzero, twoPow_zero, Nat.mul_one, decide_eq_true_iff]
  have hcast : ((2 : Nat) : ℚ) = 2 := rfl
  simp only [binaryLog, ha, hb]
  by_cases hr : (2 : ℚ) ^ ((a : Int) - b) ≤ num / den
  · rw [if_pos (hreached.2 hr)]
    have h₁ := (Int.zpow_le_iff_le_log one_lt_two hv).1 (hcast ▸ hr)
    have h₂ := (Int.lt_zpow_iff_log_lt one_lt_two hv).1 (hcast ▸ hhigh)
    omega
  · rw [if_neg (fun h => hr (hreached.1 h))]
    have h₁ := (Int.zpow_le_iff_le_log one_lt_two hv).1 (hcast ▸ hlow)
    have h₂ := (Int.lt_zpow_iff_log_lt one_lt_two hv).1 (hcast ▸ (not_le.1 hr))
    omega

/-- The exponent of the number nearest to a positive value. -/
def nearestExponent (v : ℚ) : Int := max (Int.log 2 v - 52) leastExponent

theorem nearestBits_eq {num den : Nat} (hn : 0 < num) (hd : 0 < den) {q : Int}
    (hq : nearestExponent ((num : ℚ) / den) = q) :
    nearestBits num den = min (magnitudeBits
      (divNearestEven (num * twoPow (-q).toNat) (den * twoPow q.toNat)) q) infinityBits := by
  rw [nearestBits, if_neg hn.ne', binaryLog_eq hn hd]
  unfold nearestExponent at hq
  simp only [hq]
  split_ifs with h0
  · have hzero : (-q).toNat = 0 := by omega
    rw [hzero, twoPow_zero, Nat.mul_one]
  · have hzero : q.toNat = 0 := by omega
    rw [hzero, twoPow_zero, Nat.mul_one]

theorem nearestBits_zero (den : Nat) : nearestBits 0 den = 0 := if_pos rfl

/-- Equal fractions are rounded to the same bits. -/
theorem nearestBits_congr {num den num' den' : Nat} (hd : 0 < den) (hd' : 0 < den')
    (h : num * den' = num' * den) : nearestBits num den = nearestBits num' den' := by
  obtain rfl | hn := num.eq_zero_or_pos
  · have hn' : num' = 0 := by
      have hz : num' * den = 0 := by rw [← h, Nat.zero_mul]
      exact (Nat.mul_eq_zero.1 hz).resolve_right hd.ne'
    rw [hn', nearestBits_zero, nearestBits_zero]
  have hn' : 0 < num' := Nat.pos_of_mul_pos_right (h ▸ Nat.mul_pos hn hd')
  have hv : (num : ℚ) / den = num' / den' := by
    rw [div_eq_div_iff (by positivity) (by positivity)]
    exact_mod_cast h
  rw [nearestBits_eq hn hd rfl, nearestBits_eq hn' hd' rfl, hv]
  congr 2
  refine divNearestEven_congr (Nat.mul_pos hd (twoPow_pos _)) (Nat.mul_pos hd' (twoPow_pos _)) ?_
  rw [Nat.mul_mul_mul_comm, h, Nat.mul_mul_mul_comm num']

/-- The value of a finite number is rounded to its bits. -/
theorem nearestBits_canonical {m : Nat} {q : Int} (hm : 0 < m) (hc : Canonical m q) :
    nearestBits (m * twoPow q.toNat) (twoPow (-q).toNat) = magnitudeBits m q := by
  have hv : ((m * twoPow q.toNat : Nat) : ℚ) / (twoPow (-q).toNat : Nat) = m * 2 ^ q := by
    have hz : (2 : ℚ) ^ q = _ := zpow_eq_div 2 q
    rw [hz, Nat.cast_mul, mul_div_assoc]
    rfl
  have hpos : (0 : ℚ) < m * 2 ^ q := by positivity
  obtain ⟨a, ha⟩ : ∃ a, Nat.log2 m = a := ⟨_, rfl⟩
  obtain ⟨hlo, hhi⟩ := (Nat.log2_eq_iff hm.ne').1 ha
  -- the leading bit of the value is that of the mantissa, moved by the exponent
  have hlog : Int.log 2 ((m : ℚ) * 2 ^ q) = a + q := by
    have h₁ := (Int.zpow_le_iff_le_log one_lt_two hpos (x := a + q)).1 (by
      rw [zpow_add₀ (by norm_num)]
      exact mul_le_mul_of_nonneg_right (by exact_mod_cast hlo) (by positivity))
    have h₂ := (Int.lt_zpow_iff_log_lt one_lt_two hpos (x := a + 1 + q)).1 (by
      rw [zpow_add₀ (by norm_num)]
      exact mul_lt_mul_of_pos_right (by exact_mod_cast hhi) (by positivity))
    omega
  have hq : nearestExponent (((m * twoPow q.toNat : Nat) : ℚ) / (twoPow (-q).toNat : Nat)) = q := by
    have hlt : a < 53 := ha ▸ (Nat.log2_lt hm.ne').2 hc.mantissa_lt
    have hleast := hc.least
    rw [nearestExponent, hv, hlog]
    obtain hq | hfilled := hc.filled
    · omega
    · have hle : 52 ≤ a := ha ▸ (Nat.le_log2 hm.ne').2 hfilled
      omega
  rw [nearestBits_eq (Nat.mul_pos hm (twoPow_pos _)) (twoPow_pos _) hq, Nat.mul_assoc,
    Nat.mul_comm (twoPow q.toNat), divNearestEven_mul_self m
      (Nat.mul_pos (twoPow_pos _) (twoPow_pos _))]
  exact min_eq_left hc.finite.le

/-- A value below half of the smallest number is rounded to zero. -/
theorem nearestBits_underflow {num den : Nat} (h : num * twoPow 1075 < den) :
    nearestBits num den = 0 := by
  obtain rfl | hn := num.eq_zero_or_pos
  · exact nearestBits_zero den
  have hd : 0 < den := Nat.pos_of_ne_zero (Nat.ne_zero_of_lt h)
  have hv : (0 : ℚ) < num / den := by positivity
  have hlog : Int.log 2 ((num : ℚ) / den) < -1075 := by
    refine (Int.lt_zpow_iff_log_lt one_lt_two hv).1 (lt_of_not_ge fun hle => ?_)
    have hle' := (zpow_le_div_iff hd (-1075)).1 hle
    rw [← Nat.mul_one den] at h
    exact absurd hle' (not_le.2 h)
  have hq : nearestExponent ((num : ℚ) / den) = leastExponent := by
    rw [nearestExponent, leastExponent]
    omega
  have hhalf : 2 * (num * twoPow (-leastExponent).toNat) < den * twoPow leastExponent.toNat := by
    have h₁ : (-leastExponent).toNat = 1074 := by decide
    have h₂ : leastExponent.toNat = 0 := by decide
    rw [h₁, h₂, Nat.mul_left_comm, ← twoPow_succ, twoPow_zero, Nat.mul_one]
    exact h
  rw [nearestBits_eq hn hd hq, divNearestEven_eq_zero hhalf]
  rfl

/-- A value from `2^1024` on is rounded to infinity. -/
theorem nearestBits_overflow {num den : Nat} (hd : 0 < den) (h : den * twoPow 1024 ≤ num) :
    nearestBits num den = infinityBits := by
  have hn : 0 < num := lt_of_lt_of_le (Nat.mul_pos hd (twoPow_pos _)) h
  have hv : (0 : ℚ) < num / den := by positivity
  have hlog : 1024 ≤ Int.log 2 ((num : ℚ) / den) := by
    refine (Int.zpow_le_iff_le_log one_lt_two hv).1 ((zpow_le_div_iff hd 1024).2 ?_)
    rw [← Nat.mul_one num] at h
    exact h
  obtain ⟨k, hk⟩ : ∃ k : Nat, Int.log 2 ((num : ℚ) / den) = k + 52 :=
    ⟨(Int.log 2 ((num : ℚ) / den) - 52).toNat, by omega⟩
  have hq : nearestExponent ((num : ℚ) / den) = k := by
    rw [nearestExponent, leastExponent, hk]
    omega
  -- the mantissa is filled
  have hm : 2 ^ 52 ≤ divNearestEven num (den * twoPow k) := by
    refine le_trans ?_ (div_le_divNearestEven _ _)
    rw [Nat.le_div_iff_mul_le (Nat.mul_pos hd (twoPow_pos _))]
    have hle := Int.zpow_log_le_self one_lt_two hv
    rw [hk, le_div_iff₀ (by positivity), zpow_add₀ (by norm_num)] at hle
    have hle' : 2 ^ k * 2 ^ 52 * den ≤ num := by exact_mod_cast hle
    calc 2 ^ 52 * (den * twoPow k) = 2 ^ k * 2 ^ 52 * den := by rw [twoPow_eq]; ring
      _ ≤ num := hle'
  rw [nearestBits_eq hn hd hq]
  refine min_eq_right ?_
  have hzero : (-(k : Int)).toNat = 0 := by omega
  rw [hzero, twoPow_zero, Nat.mul_one, Int.toNat_natCast]
  simp only [magnitudeBits, infinityBits, leastExponent, twoPow_eq] at hm ⊢
  omega

/-! ### Decimals -/

theorem tenPow_eq (n : Nat) : tenPow n = 10 ^ n := rfl

theorem tenPow_add (m n : Nat) : tenPow (m + n) = tenPow m * tenPow n := Nat.pow_add 10 m n

theorem twoPow_lt_tenPow : twoPow 1075 < tenPow 330 := by decide +kernel

theorem twoPow_le_tenPow : twoPow 1024 ≤ tenPow 309 := by decide +kernel

theorem nearestBits_tiny {n k : Nat} (h : n < tenPow k) (j : Nat) :
    nearestBits n (tenPow (k + (330 + j))) = 0 := by
  apply nearestBits_underflow
  rw [tenPow_add]
  refine Nat.mul_lt_mul_of_lt_of_le h ?_ (tenPow_pos _)
  rw [tenPow_add]
  exact le_trans twoPow_lt_tenPow.le (Nat.le_mul_of_pos_right _ (tenPow_pos j))

/-- A decimal is rounded as the fraction it stands for. -/
theorem decimalBits_eq (digits : Nat) (e : Int) :
    decimalBits digits e = nearestBits (digits * tenPow e.toNat) (tenPow (-e).toNat) := by
  unfold decimalBits
  split_ifs with hsmall hlarge hnonneg
  · symm
    obtain rfl | hsmall := hsmall
    · rw [Nat.zero_mul, nearestBits_zero]
    have hzero : e.toNat = 0 := by omega
    -- so small that the shortcut and the rounding both give zero
    obtain ⟨k, hk⟩ : ∃ k, (-e).toNat = digits.log2 + 1 + (330 + k) :=
      ⟨(-e).toNat - (digits.log2 + 1 + 330), by omega⟩
    have hdigits : digits < tenPow (digits.log2 + 1) :=
      lt_of_lt_of_le Nat.lt_log2_self (Nat.pow_le_pow_left (by decide) _)
    rw [hzero, tenPow_zero, Nat.mul_one, hk]
    exact nearestBits_tiny hdigits k
  · symm
    have hzero : (-e).toNat = 0 := by omega
    -- so large that both give infinity
    obtain ⟨k, hk⟩ : ∃ k, e.toNat = 309 + k := ⟨e.toNat - 309, by omega⟩
    have hdigits : 0 < digits := by omega
    refine nearestBits_overflow (tenPow_pos _) ?_
    rw [hzero, tenPow_zero, Nat.one_mul, hk, tenPow_add]
    refine le_trans twoPow_le_tenPow (le_trans (Nat.le_mul_of_pos_right _ (tenPow_pos k)) ?_)
    exact Nat.le_mul_of_pos_left _ hdigits
  · have hzero : (-e).toNat = 0 := by omega
    rw [hzero, tenPow_zero]
  · have hzero : e.toNat = 0 := by omega
    rw [hzero, tenPow_zero, Nat.mul_one]

theorem decimal_value (digits : Nat) (e : Int) :
    ((digits * tenPow e.toNat : Nat) : ℚ) / (tenPow (-e).toNat : Nat) = digits * 10 ^ e := by
  have hz : (10 : ℚ) ^ e = _ := zpow_eq_div 10 e
  rw [hz, Nat.cast_mul, mul_div_assoc]
  rfl

/-- Decimals of the same value are rounded to the same bits. -/
theorem decimalBits_congr {digits digits' : Nat} {e e' : Int}
    (h : (digits : ℚ) * 10 ^ e = digits' * 10 ^ e') :
    decimalBits digits e = decimalBits digits' e' := by
  have hd (k : Nat) : ((tenPow k : Nat) : ℚ) ≠ 0 := Nat.cast_ne_zero.2 (tenPow_pos k).ne'
  rw [← decimal_value, ← decimal_value, div_eq_div_iff (hd _) (hd _)] at h
  rw [decimalBits_eq, decimalBits_eq]
  exact nearestBits_congr (tenPow_pos _) (tenPow_pos _) (by exact_mod_cast h)

end Binary64

namespace Decimal

open Binary64

theorem bits_full {m : Nat} {q : Int} (hm : 0 < m) (hc : Canonical m q) :
    (full m q).bits = magnitudeBits m q := by
  rw [← nearestBits_canonical hm hc, full, bits]
  split_ifs with h0
  · have hzero : (-q).toNat = 0 := by omega
    rw [decimalBits_eq, hzero]
    exact congrArg₂ nearestBits (Nat.mul_one _) rfl
  · have hzero : q.toNat = 0 := by omega
    simp only [decimalBits_eq, hzero, twoPow_zero, tenPow_zero, Nat.mul_one]
    refine nearestBits_congr (tenPow_pos _) (twoPow_pos _) ?_
    rw [Nat.mul_assoc, tenPow_eq, show (10 : Nat) = 5 * 2 from rfl, Nat.mul_pow]
    rfl

/-- The shortest decimal of a number is rounded to that number. -/
theorem bits_shortest {m : Nat} {q : Int} (hm : 0 < m) (hc : Canonical m q) :
    (shortest m q).bits = magnitudeBits m q := by
  unfold shortest
  generalize List.range 17 = counts
  simp only
  -- every candidate that is taken has been checked, and the last resort is exact
  cases hfound : counts.findSome? fun (n : Nat) =>
      (neighbours m q (decimalLog m q - n)).find? fun d => d.bits = magnitudeBits m q with
  | none => exact bits_full hm hc
  | some d =>
    obtain ⟨n, -, hn⟩ := List.exists_of_findSome?_eq_some hfound
    have hd := List.find?_some hn
    rw [decide_eq_true_iff] at hd
    rw [Option.getD_some, hd]

/-- The number of digits tells the decimal order of a number. -/
theorem tenPow_length_toDigits {n : Nat} (hn : 0 < n) :
    tenPow ((Nat.toDigits 10 n).length - 1) ≤ n ∧ n < tenPow (Nat.toDigits 10 n).length := by
  obtain ⟨k, hk⟩ : ∃ k, (Nat.toDigits 10 n).length = k + 1 :=
    ⟨_, (Nat.succ_pred_eq_of_pos Nat.length_toDigits_pos).symm⟩
  rw [hk]
  constructor
  · obtain rfl | hpos := k.eq_zero_or_pos
    · exact hn
    · by_contra hlt
      have hle := (Nat.length_toDigits_le_iff (by decide) hpos).2 (not_le.1 hlt)
      omega
  · exact (Nat.length_toDigits_le_iff (by decide) k.succ_pos).1 hk.le

theorem digits_pos {d : Decimal} (h : 0 < d.bits) : 0 < d.digits := by
  refine Nat.pos_of_ne_zero fun h0 => ?_
  simp [bits, decimalBits, h0] at h

/-- How small and how large a decimal of a finite number other than zero can be. -/
theorem order_bounds {d : Decimal} (hpos : 0 < d.bits) (hlt : d.bits < infinityBits) :
    -330 ≤ d.order ∧ d.order < 310 := by
  have hdigits := digits_pos hpos
  obtain ⟨hlo, hhi⟩ := tenPow_length_toDigits hdigits
  obtain ⟨k, hk⟩ : ∃ k, (Nat.toDigits 10 d.digits).length = k + 1 :=
    ⟨_, (Nat.succ_pred_eq_of_pos Nat.length_toDigits_pos).symm⟩
  rw [hk] at hlo hhi
  rw [bits, decimalBits_eq] at hpos hlt
  rw [order, hk]
  constructor
  · by_contra hsmall
    have hzero : d.exponent.toNat = 0 := by omega
    obtain ⟨j, hj⟩ : ∃ j, (-d.exponent).toNat = (k + 1) + (330 + j) :=
      ⟨(-d.exponent).toNat - (k + 1 + 330), by omega⟩
    rw [hzero, tenPow_zero, Nat.mul_one, hj, nearestBits_tiny hhi j] at hpos
    exact absurd hpos (by decide)
  · by_contra hlarge
    refine hlt.ne (nearestBits_overflow (tenPow_pos _) ?_)
    obtain ⟨j, hj⟩ : ∃ j, k + d.exponent.toNat = (-d.exponent).toNat + (309 + j) :=
      ⟨k + d.exponent.toNat - ((-d.exponent).toNat + 309), by omega⟩
    calc tenPow (-d.exponent).toNat * twoPow 1024
        ≤ tenPow (-d.exponent).toNat * (tenPow 309 * tenPow j) := by
          refine Nat.mul_le_mul le_rfl (le_trans twoPow_le_tenPow ?_)
          exact Nat.le_mul_of_pos_right _ (tenPow_pos j)
      _ = tenPow k * tenPow d.exponent.toNat := by
          rw [← tenPow_add, ← tenPow_add, ← tenPow_add, hj]
      _ ≤ d.digits * tenPow d.exponent.toNat := Nat.mul_le_mul hlo le_rfl

end Decimal

end Scheme
