import Mathlib
import Scheme.Proofs.Powers

/-!
# The field of Gaussian rationals

Exact numbers are the complex numbers with rational parts, and their arithmetic is that of the
complex numbers.  The shortcuts for real operands agree with the general formulas, every operation
but a division by zero can be undone, and sums and products of any number of exact numbers do not
depend on their order.

* `Number.Denotes`, `Number.IsQuotient`: the complex number that a result is;
* `Cartesian.quotient`: the general formula of the quotient;
* `Number.denotes_foldl`: an operation on any number of operands;
* `Number.exact_arithmetic`: the main result.
-/

namespace Scheme

namespace Cartesian

theorem toComplex_injective : Function.Injective toComplex := by
  rintro ⟨a, b⟩ ⟨c, d⟩ h
  have hre : (a : ℝ) = c := (Complex.ext_iff.1 h).1
  have him : (b : ℝ) = d := (Complex.ext_iff.1 h).2
  rw [Rat.cast_inj.1 hre, Rat.cast_inj.1 him]

theorem toComplex_add (z w : Cartesian Rat) : (z.add w).toComplex = z.toComplex + w.toComplex := by
  apply Complex.ext <;> simp [toComplex, add]

theorem toComplex_sub (z w : Cartesian Rat) : (z.sub w).toComplex = z.toComplex - w.toComplex := by
  apply Complex.ext <;> simp [toComplex, sub]

theorem toComplex_neg (z : Cartesian Rat) : z.neg.toComplex = -z.toComplex := by
  apply Complex.ext <;> simp [toComplex, neg]

/-- The quotient by the general formula, over the square of the absolute value of the divisor. -/
def quotient (z w : Cartesian Rat) : Cartesian Rat :=
  ⟨(z.re * w.re + z.im * w.im) / (w.re * w.re + w.im * w.im),
    (z.im * w.re - z.re * w.im) / (w.re * w.re + w.im * w.im)⟩

/-- The quotient by a real divisor is that by the general formula. -/
theorem exactDiv_eq_quotient {w : Cartesian Rat} (z : Cartesian Rat) (hw : w ≠ ⟨0, 0⟩) :
    z.exactDiv w = z.quotient w := by
  obtain ⟨c, d⟩ := w
  unfold exactDiv quotient
  split_ifs with hd
  · obtain rfl : d = 0 := hd
    have hc : c ≠ 0 := by
      rintro rfl
      exact hw rfl
    simp only [mul_zero, add_zero, sub_zero, mul_div_mul_right _ _ hc]
  · rfl

end Cartesian

namespace Number

open Cartesian (toComplex)

/-! ### What results are -/

/-- The number is exact, and it is the complex number `c`. -/
def Denotes (n : Number) (c : ℂ) : Prop := ∃ z, n = .exact z ∧ z.toComplex = c

/-- The result is the exact quotient of two complex numbers, or the failure of a division by
zero. -/
def IsQuotient (r : Except NumberError Number) (c d : ℂ) : Prop :=
  (d = 0 ∧ r = .error .divideByZero) ∨ (d ≠ 0 ∧ ∃ n, r = .ok n ∧ n.Denotes (c / d))

/-- No two exact numbers are the same complex number. -/
theorem Denotes.unique {n m : Number} {c : ℂ} (hn : n.Denotes c) (hm : m.Denotes c) : n = m := by
  obtain ⟨z, rfl, rfl⟩ := hn
  obtain ⟨w, rfl, hw⟩ := hm
  rw [Cartesian.toComplex_injective hw]

theorem Denotes.same {n m : Number} {c : ℂ} (hn : n.Denotes c) (hm : m.Denotes c) :
    n.same m = true := by
  obtain rfl := hn.unique hm
  obtain ⟨z, rfl, -⟩ := hn
  exact decide_eq_true rfl

theorem denotes_exact (z : Cartesian Rat) : (exact z).Denotes z.toComplex := ⟨z, rfl, rfl⟩

section Operations

variable {n m : Number} {c d : ℂ}

theorem Denotes.add (hn : n.Denotes c) (hm : m.Denotes d) : (n.add m).Denotes (c + d) := by
  obtain ⟨z, rfl, rfl⟩ := hn
  obtain ⟨w, rfl, rfl⟩ := hm
  exact ⟨_, rfl, Cartesian.toComplex_add z w⟩

theorem Denotes.sub (hn : n.Denotes c) (hm : m.Denotes d) : (n.sub m).Denotes (c - d) := by
  obtain ⟨z, rfl, rfl⟩ := hn
  obtain ⟨w, rfl, rfl⟩ := hm
  exact ⟨_, rfl, Cartesian.toComplex_sub z w⟩

theorem Denotes.mul (hn : n.Denotes c) (hm : m.Denotes d) : (n.mul m).Denotes (c * d) := by
  obtain ⟨z, rfl, rfl⟩ := hn
  obtain ⟨w, rfl, rfl⟩ := hm
  exact ⟨_, rfl, Cartesian.toComplex_exactMul z w⟩

theorem Denotes.neg (hn : n.Denotes c) : n.neg.Denotes (-c) := by
  obtain ⟨z, rfl, rfl⟩ := hn
  exact ⟨_, rfl, Cartesian.toComplex_neg z⟩

theorem Denotes.div (hn : n.Denotes c) (hm : m.Denotes d) : IsQuotient (n.div m) c d := by
  obtain ⟨z, rfl, rfl⟩ := hn
  obtain ⟨w, rfl, rfl⟩ := hm
  by_cases hw : w = ⟨0, 0⟩
  · exact Or.inl ⟨Cartesian.toComplex_eq_zero_iff.2 hw, by rw [div_exact, if_pos hw]⟩
  · refine Or.inr ⟨mt Cartesian.toComplex_eq_zero_iff.1 hw, .exact (z.exactDiv w), ?_, ?_⟩
    · rw [div_exact, if_neg hw]
    · exact ⟨_, rfl, Cartesian.toComplex_exactDiv z hw⟩

theorem denotes_one : (ofInt 1).Denotes 1 := ⟨⟨1, 0⟩, rfl, Cartesian.toComplex_one⟩

theorem Denotes.recip (hn : n.Denotes c) : IsQuotient n.recip 1 c := denotes_one.div hn

/-- A quotient by a divisor other than zero. -/
theorem IsQuotient.exists_ok {r : Except NumberError Number} (h : IsQuotient r c d) (hd : d ≠ 0) :
    ∃ q, r = .ok q ∧ q.Denotes (c / d) := by
  obtain ⟨hzero, -⟩ | ⟨-, hquotient⟩ := h
  · exact absurd hzero hd
  · exact hquotient

end Operations

/-! ### Any number of operands -/

/-- An operation that is done to one operand after the other. -/
theorem denotes_foldl {op : Number → Number → Number} {f : ℂ → ℂ → ℂ}
    (hop : ∀ {n m : Number} {c d : ℂ}, n.Denotes c → m.Denotes d → (op n m).Denotes (f c d))
    (zs : List (Cartesian Rat)) {n : Number} {c : ℂ} (hn : n.Denotes c) :
    ((zs.map exact).foldl op n).Denotes ((zs.map toComplex).foldl f c) := by
  induction zs generalizing n c with
  | nil => exact hn
  | cons z zs ih => exact ih (hop hn (denotes_exact z))

theorem denotes_sum (zs : List (Cartesian Rat)) :
    (Prelude.sum (zs.map exact)).Denotes (zs.map toComplex).sum := by
  rw [List.sum_eq_foldl]
  exact denotes_foldl Denotes.add zs ⟨⟨0, 0⟩, rfl, Cartesian.toComplex_eq_zero_iff.2 rfl⟩

theorem denotes_product (zs : List (Cartesian Rat)) :
    (Prelude.product (zs.map exact)).Denotes (zs.map toComplex).prod := by
  rw [List.prod_eq_foldl]
  exact denotes_foldl Denotes.mul zs denotes_one

theorem convertAll_number (ns : List Number) :
    Conversion.number.convertAll (ns.map fun n => (.number n : Value)) = .ok ns := by
  have hfrom (place : Nat) :
      Conversion.number.convertFrom place (ns.map fun n => (.number n : Value)) = .ok ns := by
    induction ns generalizing place with
    | nil => rfl
    | cons n ns ih =>
      rw [List.map_cons, Conversion.convertFrom, ih]
      rfl
  exact hfrom 1

/-- A primitive of any number of arguments is called with numbers. -/
theorem run_many_number (f : Nat → List Number → Number) (stamp : Nat) (ns : List Number) :
    (Shape.many .number f).run stamp (ns.map fun n => (.number n : Value)) =
      .ok (.give (.number (f stamp ns))) := by
  rw [Shape.run, convertAll_number]
  rfl

/-- Calls with the same exact numbers in another order give the same number. -/
theorem exists_run_of_perm {f : Nat → List Number → Number} {total : List ℂ → ℂ}
    (hf : ∀ (stamp : Nat) (zs : List (Cartesian Rat)),
      (f stamp (zs.map exact)).Denotes (total (zs.map toComplex)))
    (htotal : ∀ {cs ds : List ℂ}, cs.Perm ds → total cs = total ds) {zs ws : List (Cartesian Rat)}
    (h : zs.Perm ws) (stamp stamp' : Nat) : ∃ n : Number, n.Denotes (total (zs.map toComplex)) ∧
      (Shape.many .number f).run stamp (zs.map fun z => .number (.exact z)) =
        .ok (.give (.number n)) ∧
      (Shape.many .number f).run stamp' (ws.map fun z => .number (.exact z)) =
        .ok (.give (.number n)) := by
  have hrun (stamp : Nat) (zs : List (Cartesian Rat)) :
      (Shape.many .number f).run stamp (zs.map fun z => .number (.exact z)) =
        .ok (.give (.number (f stamp (zs.map exact)))) := by
    have hmany := run_many_number f stamp (zs.map exact)
    rwa [List.map_map] at hmany
  have hsame : f stamp' (ws.map exact) = f stamp (zs.map exact) :=
    (hf stamp' ws).unique (htotal (h.map toComplex) ▸ hf stamp zs)
  exact ⟨_, hf stamp zs, hrun stamp zs, by rw [hrun, hsame]⟩

/-- **Exact arithmetic is that of the Gaussian rationals.**  Sums, differences, products, negatives,
quotients and reciprocals of exact numbers are exact and have the parts of the mathematical result;
only a division by zero fails.  The shortcuts for real factors and for a real divisor give what the
general formulas give.  What is added, multiplied or divided can be undone.  The procedures `+` and
`*` give the sum and the product of all arguments, which are the same in every order. -/
theorem exact_arithmetic :
    (∀ z w : Cartesian Rat,
      (add (.exact z) (.exact w)).Denotes (z.toComplex + w.toComplex) ∧
      (sub (.exact z) (.exact w)).Denotes (z.toComplex - w.toComplex) ∧
      (mul (.exact z) (.exact w)).Denotes (z.toComplex * w.toComplex) ∧
      (neg (.exact z)).Denotes (-z.toComplex) ∧
      IsQuotient (div (.exact z) (.exact w)) z.toComplex w.toComplex ∧
      IsQuotient (recip (.exact z)) 1 z.toComplex ∧
      z.exactMul w = z * w ∧
      (w ≠ ⟨0, 0⟩ → z.exactDiv w = z.quotient w) ∧
      (sub (add (.exact z) (.exact w)) (.exact w)).same (.exact z) = true ∧
      (w ≠ ⟨0, 0⟩ →
        (∃ q, div (.exact z) (.exact w) = .ok q ∧ (mul q (.exact w)).same (.exact z) = true) ∧
        ∃ q, div (mul (.exact z) (.exact w)) (.exact w) = .ok q ∧ q.same (.exact z) = true)) ∧
    ∀ zs ws : List (Cartesian Rat), zs.Perm ws → ∀ stamp stamp',
      (∃ n : Number, n.Denotes (zs.map toComplex).sum ∧
        Primitive.add.shape.run stamp (zs.map fun z => .number (.exact z)) =
          .ok (.give (.number n)) ∧
        Primitive.add.shape.run stamp' (ws.map fun z => .number (.exact z)) =
          .ok (.give (.number n))) ∧
      ∃ n : Number, n.Denotes (zs.map toComplex).prod ∧
        Primitive.mul.shape.run stamp (zs.map fun z => .number (.exact z)) =
          .ok (.give (.number n)) ∧
        Primitive.mul.shape.run stamp' (ws.map fun z => .number (.exact z)) =
          .ok (.give (.number n)) := by
  refine ⟨fun z w => ?_, fun zs ws h stamp stamp' => ⟨?_, ?_⟩⟩
  · have hz := denotes_exact z
    have hw := denotes_exact w
    refine ⟨hz.add hw, hz.sub hw, hz.mul hw, hz.neg, hz.div hw, hz.recip,
      Cartesian.exactMul_eq_mul z w,
      Cartesian.exactDiv_eq_quotient z, ?_, fun hne => ?_⟩
    · have hback := (hz.add hw).sub hw
      rw [add_sub_cancel_right] at hback
      exact hback.same hz
    · have hzero : w.toComplex ≠ 0 := mt Cartesian.toComplex_eq_zero_iff.1 hne
      obtain ⟨q, hq, hdenotes⟩ := (hz.div hw).exists_ok hzero
      obtain ⟨q', hq', hdenotes'⟩ := ((hz.mul hw).div hw).exists_ok hzero
      have hback := hdenotes.mul hw
      rw [div_mul_cancel₀ _ hzero] at hback
      rw [mul_div_cancel_right₀ _ hzero] at hdenotes'
      exact ⟨⟨q, hq, hback.same hz⟩, q', hq', hdenotes'.same hz⟩
  · exact exists_run_of_perm (fun _ => denotes_sum) List.Perm.sum_eq h stamp stamp'
  · exact exists_run_of_perm (fun _ => denotes_product) List.Perm.prod_eq h stamp stamp'

/-- The numbers `1+2i` and `3+4i`, with the second as divisor and in both orders. -/
theorem exact_arithmetic_pair :
    let z : Cartesian Rat := ⟨1, 2⟩
    let w : Cartesian Rat := ⟨3, 4⟩
    w ≠ ⟨0, 0⟩ ∧ z.exactDiv w = z.quotient w ∧
      (∃ q, div (.exact z) (.exact w) = .ok q ∧ (mul q (.exact w)).same (.exact z) = true) ∧
      [z, w].Perm [w, z] ∧ ∃ n : Number, n.Denotes (z.toComplex * w.toComplex) ∧
        Primitive.mul.shape.run 0 [.number (.exact z), .number (.exact w)] =
          .ok (.give (.number n)) ∧
        Primitive.mul.shape.run 0 [.number (.exact w), .number (.exact z)] =
          .ok (.give (.number n)) := by
  intro z w
  have hw : w ≠ ⟨0, 0⟩ := by decide
  have hperm : [z, w].Perm [w, z] := List.Perm.swap w z []
  obtain ⟨-, -, -, -, -, -, -, hdiv, -, hback⟩ := exact_arithmetic.1 z w
  obtain ⟨n, hn, hrun, hrun'⟩ := (exact_arithmetic.2 [z, w] [w, z] hperm 0 0).2
  have hprod : ([z, w].map toComplex).prod = z.toComplex * w.toComplex := by simp
  exact ⟨hw, hdiv hw, (hback hw).1, hperm, n, hprod ▸ hn, hrun, hrun'⟩

end Number

end Scheme
