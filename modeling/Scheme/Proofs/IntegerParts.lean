import Mathlib
import Scheme.Number.Real

/-!
# Integer parts of exact numbers

An exact real is rounded down, up, toward zero, or to the nearest integer.  Of two integers that are
equally near, the even one is taken, so that rounding to the nearest integer is an odd function.

* `Rounding.ceil_eq`, `Rounding.trunc_eq`: rounding up and toward zero by floor and ceiling;
* `Rounding.IsNearestEven`: a nearest integer, the even one of two;
* `Rounding.isNearestEven_iff`: nearest means at most one half away, and exactly one half only if
  even;
* `Rounding.nearestEven_eq_iff`: there is one such integer, and rounding finds it;
* `RealNumber.integer_parts`: the main result.
-/

namespace Scheme

namespace Rounding

variable {x : Rat} {n m k : Int}

/-! ### Down, up and toward zero -/

theorem ceil_eq (x : Rat) : ceil x = ⌈x⌉ := rfl

theorem trunc_neg (x : Rat) : trunc (-x) = -trunc x := by
  rw [trunc, trunc, Rat.num_neg_eq_neg_num, Rat.den_neg_eq_den, Int.neg_tdiv]

theorem trunc_of_nonneg (h : 0 ≤ x) : trunc x = ⌊x⌋ := by
  rw [trunc, Int.tdiv_eq_ediv_of_nonneg (Rat.num_nonneg.2 h), Rat.floor_def']

/-- The integer part is the floor of a number that is not negative and the ceiling of a negative
one. -/
theorem trunc_eq (x : Rat) : trunc x = if 0 ≤ x then ⌊x⌋ else ⌈x⌉ := by
  split_ifs with h
  · exact trunc_of_nonneg h
  · have hneg : 0 ≤ -x := neg_nonneg.2 (not_le.1 h).le
    rw [← neg_neg x, trunc_neg, trunc_of_nonneg hneg, Int.ceil_neg]

/-! ### To the nearest integer -/

/-- The integer is nearest to `x`, and even if another one is equally near. -/
structure IsNearestEven (x : Rat) (n : Int) : Prop where
  nearest : ∀ k : Int, |x - n| ≤ |x - k|
  even : ∀ k : Int, k ≠ n → |x - k| = |x - n| → Even n

/-- No two integers are both near. -/
theorem one_le_abs_sub_add (x : Rat) (h : k ≠ n) : 1 ≤ |x - k| + |x - n| := by
  have hone : (1 : Rat) ≤ |(k : Rat) - n| := by
    exact_mod_cast Int.one_le_abs (sub_ne_zero.2 h)
  have htriangle : |(k : Rat) - n| ≤ |k - x| + |x - n| := abs_sub_le _ _ _
  rw [abs_sub_comm x k]
  exact hone.trans htriangle

/-- An integer at the distance of one half has a neighbour at the same distance. -/
theorem exists_neighbour (h : |x - n| = 1 / 2) : ∃ k : Int, k ≠ n ∧ |x - k| = |x - n| := by
  obtain hx | hx := (abs_eq (by norm_num)).1 h
  · refine ⟨n + 1, by omega, ?_⟩
    rw [h, Int.cast_add, Int.cast_one, ← sub_sub, hx]
    norm_num
  · refine ⟨n - 1, by omega, ?_⟩
    rw [h, Int.cast_sub, Int.cast_one, ← sub_add, hx]
    norm_num

/-- **The nearest integer** is at most one half away, and it is even if it is one half away. -/
theorem isNearestEven_iff : IsNearestEven x n ↔ |x - n| ≤ 1 / 2 ∧ (|x - n| = 1 / 2 → Even n) := by
  constructor
  · intro h
    refine ⟨(h.nearest (round x)).trans (abs_sub_round x), fun hhalf => ?_⟩
    obtain ⟨k, hk, hsame⟩ := exists_neighbour hhalf
    exact h.even k hk hsame
  · rintro ⟨hle, heven⟩
    refine ⟨fun k => ?_, fun k hk hsame => heven ?_⟩
    · obtain rfl | hk := eq_or_ne k n
      · exact le_rfl
      · linarith [one_le_abs_sub_add x hk]
    · linarith [one_le_abs_sub_add x hk]

/-- **There is one nearest integer**, once ties go to the even one. -/
theorem IsNearestEven.unique (hn : IsNearestEven x n) (hm : IsNearestEven x m) : n = m := by
  by_contra hne
  have hsame : |x - n| = |x - m| := le_antisymm (hn.nearest m) (hm.nearest n)
  have hclose : |n - m| ≤ 1 := by
    have htriangle : |(n : Rat) - m| ≤ |n - x| + |x - m| := abs_sub_le _ _ _
    rw [abs_sub_comm (n : Rat) x] at htriangle
    have hnhalf := (isNearestEven_iff.1 hn).1
    have hmhalf := (isNearestEven_iff.1 hm).1
    exact_mod_cast (show |(n : Rat) - m| ≤ 1 by linarith)
  -- both are even, so that they cannot be neighbours
  obtain ⟨i, rfl⟩ := hn.even m (Ne.symm hne) hsame.symm
  obtain ⟨j, rfl⟩ := hm.even _ hne hsame
  have hcases := Int.abs_le_one_iff.1 hclose
  omega

theorem isNearestEven_nearestEven (x : Rat) : IsNearestEven x (nearestEven x) := by
  have hbelow : |x - x.floor| = x - x.floor := abs_of_nonneg (sub_nonneg.2 (Int.floor_le x))
  have habove : |x - (x.floor + 1 : Int)| = x.floor + 1 - x := by
    rw [Int.cast_add, Int.cast_one, abs_sub_comm]
    exact abs_of_nonneg (sub_nonneg.2 (Int.lt_floor_add_one x).le)
  rw [isNearestEven_iff]
  unfold nearestEven
  simp only
  split_ifs with hless hmore heven
  · rw [hbelow]
    exact ⟨hless.le, fun h => absurd h hless.ne⟩
  · rw [habove]
    exact ⟨by linarith, fun h => absurd h (by linarith)⟩
  · rw [hbelow]
    exact ⟨not_lt.1 hmore, fun _ => Int.even_iff.2 heven⟩
  · rw [habove]
    exact ⟨by linarith, fun _ => Int.even_iff.2 (by omega)⟩

theorem nearestEven_eq_iff : nearestEven x = n ↔ IsNearestEven x n :=
  ⟨fun h => h ▸ isNearestEven_nearestEven x, fun h => (isNearestEven_nearestEven x).unique h⟩

theorem nearestEven_neg (x : Rat) : nearestEven (-x) = -nearestEven x := by
  have h := isNearestEven_iff.1 (isNearestEven_nearestEven x)
  rw [nearestEven_eq_iff, isNearestEven_iff, Int.cast_neg, neg_sub_neg, abs_sub_comm, even_neg]
  exact h

theorem nearestEven_add (x : Rat) (hk : Even k) : nearestEven (x + k) = nearestEven x + k := by
  have h := isNearestEven_iff.1 (isNearestEven_nearestEven x)
  rw [nearestEven_eq_iff, isNearestEven_iff, Int.cast_add, add_sub_add_right_eq_sub, Int.even_add,
    iff_true_right hk]
  exact h

end Rounding

namespace RealNumber

open Rounding (IsNearestEven)

/-- **Integer parts of exact reals** are exact integers.  The floor is at most the real and less
than one below it, the ceiling at least the real and less than one above it, the integer part is the
floor or, for negative numbers, the ceiling, and rounding gives the nearest integer, the even one of
two.  Integer part and rounding are odd functions, and floor, ceiling and rounding go along with a
shift by an even integer. -/
theorem integer_parts (x : Rat) : ∃ f c t r : Int,
    (floor (.exact x) = .exact f ∧ (f : Rat) ≤ x ∧ x < f + 1) ∧
    (ceil (.exact x) = .exact c ∧ (c : Rat) - 1 < x ∧ x ≤ c) ∧
    (trunc (.exact x) = .exact t ∧ (0 ≤ x → t = f) ∧ (x < 0 → t = c)) ∧
    (round (.exact x) = .exact r ∧ IsNearestEven x r) ∧
    (trunc (.exact (-x)) = .exact (-t : Int) ∧ round (.exact (-x)) = .exact (-r : Int)) ∧
    ∀ k : Int, Even k →
      floor (.exact (x + k)) = .exact (f + k : Int) ∧
      ceil (.exact (x + k)) = .exact (c + k : Int) ∧
      round (.exact (x + k)) = .exact (r + k : Int) := by
  refine ⟨⌊x⌋, ⌈x⌉, Rounding.trunc x, Rounding.nearestEven x, ?_, ?_, ?_, ?_, ?_, fun k hk => ?_⟩
  · exact ⟨rfl, Int.floor_le x, Int.lt_floor_add_one x⟩
  · exact ⟨rfl, sub_lt_iff_lt_add.2 (Int.ceil_lt_add_one x), Int.le_ceil x⟩
  · refine ⟨rfl, fun h => ?_, fun h => ?_⟩
    · rw [Rounding.trunc_eq, if_pos h]
    · rw [Rounding.trunc_eq, if_neg (not_le.2 h)]
  · exact ⟨rfl, Rounding.isNearestEven_nearestEven x⟩
  · rw [← Rounding.trunc_neg, ← Rounding.nearestEven_neg]
    exact ⟨rfl, rfl⟩
  · rw [← Int.floor_add_intCast, ← Int.ceil_add_intCast, ← Rounding.nearestEven_add x hk]
    exact ⟨rfl, rfl, rfl⟩

/-- A negative half goes to the even integer above it, and to the same place when shifted by
four. -/
theorem integer_parts_half :
    Even (4 : Int) ∧ (-5 / 2 : Rat) < 0 ∧
      trunc (.exact (-5 / 2)) = .exact (-2 : Int) ∧ round (.exact (-5 / 2)) = .exact (-2 : Int) ∧
      IsNearestEven (-5 / 2) (-2) ∧ round (.exact (-5 / 2 + (4 : Int))) = .exact
        (-2 + 4 : Int) := by
  have heven : Even (4 : Int) := by decide
  have hneg : (-5 / 2 : Rat) < 0 := by norm_num
  have hcast {i j : Int} (h : RealNumber.exact i = .exact j) : i = j :=
    Int.cast_injective (RealNumber.exact.inj h)
  have hceil : ceil (.exact (-5 / 2)) = .exact (-2 : Int) := by decide +kernel
  have hround : round (.exact (-5 / 2)) = .exact (-2 : Int) := by decide +kernel
  obtain ⟨f, c, t, r, -, ⟨hc, -⟩, ⟨ht, -, hnegative⟩, ⟨hr, hnearest⟩, -, hshift⟩ :=
    integer_parts (-5 / 2)
  obtain rfl : c = -2 := hcast (hc.symm.trans hceil)
  obtain rfl : r = -2 := hcast (hr.symm.trans hround)
  obtain rfl : t = -2 := hnegative hneg
  exact ⟨heven, hneg, ht, hr, hnearest, (hshift 4 heven).2.2⟩

end RealNumber

end Scheme
