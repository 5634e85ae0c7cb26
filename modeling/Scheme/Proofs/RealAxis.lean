import Mathlib
import Scheme.Number.Function
import Scheme.Proofs.Contagion
import Scheme.Proofs.NumberText

/-!
# Arithmetic on the real axis

The square root, the logarithm and the angle have a cut along the negative real axis.  An inexact
number whose imaginary part is a positive zero counts as lying above the cut, and one with a
negative zero as lying below.  Literals of real numbers have a positive zero, and so have sums,
products, differences and quotients of such numbers.  The negative of a single inexact number is the
exception: its imaginary part is a negative zero, which the text of the number does not show, so
that it is on the other side of the cut than its own literal.

* `Number.OnRealAxis`: an imaginary part that is an exact zero or a positive zero;
* `OnRealAxis.add`, `OnRealAxis.sub`, `OnRealAxis.mul`, `OnRealAxis.div`: one operation;
* `Number.LiesBelow`: what becomes of a real number with a negative zero;
* `Primitive.IsOnAxisOrNegated`: the results of calls;
* `arithmetic_on_axis`: the main result.
-/

namespace Scheme

/-! ### Negative zeros -/

namespace Binary64

theorem hypotenuse_neg_zero (x : Float) : hypotenuse x (-0) = hypotenuse x 0 := by
  have hinf : (-0 : Float).isInf = (0 : Float).isInf := by decide
  have hnan : (-0 : Float).isNaN = (0 : Float).isNaN := by decide
  have habs : (-0 : Float).abs = (0 : Float).abs := by decide
  unfold hypotenuse
  rw [hinf, hnan, habs]

theorem atan2_neg_zero (x : Float) : atan2 (-0) x = -atan2 0 x := by
  have hnan : (-0 : Float).isNaN = (0 : Float).isNaN := by decide
  have hneg : ((-0 : Float) == 0) = true := by decide
  have hzero : ((0 : Float) == 0) = true := by decide
  unfold atan2
  rw [hnan, hneg, hzero, if_pos rfl, if_pos rfl]
  split_ifs
  · decide
  · exact copySign_neg_zero _
  · exact copySign_neg_zero _

end Binary64

theorem Cartesian.isReal_of_im {z : Cartesian Float} (h : z.im = 0) : z.isReal = true := by
  rw [isReal, h]
  decide

namespace Number

/-! ### One operation -/

/-- The imaginary part is an exact zero or a positive zero. -/
def OnRealAxis : Number → Prop
  | .exact z => z.im = 0
  | .inexact z => z.im = 0

theorem onRealAxis_ofInt (i : Int) : (ofInt i).OnRealAxis := rfl

namespace OnRealAxis

variable {n m : Number}

theorem im_toFloats (h : n.OnRealAxis) : n.toFloats.im = 0 := by
  cases n with
  | exact z =>
    have hzero : Binary64.ofRat 0 = 0 := by decide
    rw [← hzero]
    exact congrArg Binary64.ofRat h
  | inexact z => exact h

/-- An operation stays on the axis if it does with exact and with inexact parts. -/
theorem combine {onExact : Cartesian Rat → Cartesian Rat → Cartesian Rat}
    {onInexact : Cartesian Float → Cartesian Float → Cartesian Float}
    (hexact : ∀ z w, z.im = 0 → w.im = 0 → (onExact z w).im = 0)
    (hinexact : ∀ z w, z.im = 0 → w.im = 0 → (onInexact z w).im = 0)
    (hn : n.OnRealAxis) (hm : m.OnRealAxis) :
    (Number.combine onExact onInexact n m).OnRealAxis := by
  -- an exact zero becomes a positive zero when it is made inexact
  have hfloats := hinexact _ _ hn.im_toFloats hm.im_toFloats
  cases n with
  | inexact z => exact hfloats
  | exact z =>
    cases m with
    | inexact w => exact hfloats
    | exact w => exact hexact z w hn hm

theorem add (hn : n.OnRealAxis) (hm : m.OnRealAxis) : (n.add m).OnRealAxis := by
  have hzero : (0 : Float) + 0 = 0 := by decide
  refine combine (fun z w hz hw => ?_) (fun z w hz hw => ?_) hn hm
  · rw [Cartesian.add, hz, hw, add_zero]
  · rw [Cartesian.add, hz, hw, hzero]

theorem sub (hn : n.OnRealAxis) (hm : m.OnRealAxis) : (n.sub m).OnRealAxis := by
  have hzero : (0 : Float) - 0 = 0 := by decide
  refine combine (fun z w hz hw => ?_) (fun z w hz hw => ?_) hn hm
  · rw [Cartesian.sub, hz, hw, sub_zero]
  · rw [Cartesian.sub, hz, hw, hzero]

theorem mul (hn : n.OnRealAxis) (hm : m.OnRealAxis) : (n.mul m).OnRealAxis := by
  refine combine (fun z w hz hw => ?_) (fun z w hz hw => ?_) hn hm
  · rw [Cartesian.exactMul, if_pos ⟨hz, hw⟩]
  · rw [Cartesian.floatMul, Cartesian.isReal_of_im hz, Cartesian.isReal_of_im hw]
    rfl

theorem div (hn : n.OnRealAxis) (hm : m.OnRealAxis) {q : Number} (h : n.div m = .ok q) :
    q.OnRealAxis := by
  unfold Number.div at h
  split_ifs at h
  cases h
  refine combine (fun z w hz hw => ?_) (fun z w hz hw => ?_) hn hm
  · rw [Cartesian.exactDiv, if_pos hw, hz, zero_div]
  · rw [Cartesian.floatDiv, Cartesian.isReal_of_im hz, Cartesian.isReal_of_im hw]
    rfl

/-! ### Any number of operations -/

/-- What every operation keeps on the axis stays there. -/
theorem foldl {op : Number → Number → Number}
    (hop : ∀ {n m : Number}, n.OnRealAxis → m.OnRealAxis → (op n m).OnRealAxis) {ms : List Number}
    (hms : ∀ m ∈ ms, m.OnRealAxis) (hn : n.OnRealAxis) : (ms.foldl op n).OnRealAxis := by
  induction ms generalizing n with
  | nil => exact hn
  | cons m ms ih =>
    rw [List.forall_mem_cons] at hms
    exact ih hms.2 (hop hn hms.1)

theorem foldlM_div {ds : List Number} (hds : ∀ d ∈ ds, d.OnRealAxis) (hn : n.OnRealAxis)
    {q : Number} (h : ds.foldlM Number.div n = .ok q) : q.OnRealAxis := by
  induction ds generalizing n with
  | nil =>
    cases h
    exact hn
  | cons d ds ih =>
    rw [List.forall_mem_cons] at hds
    rw [List.foldlM_cons] at h
    cases hdiv : n.div d with
    | error e =>
      rw [hdiv] at h
      cases h
    | ok q' =>
      rw [hdiv] at h
      exact ih hds.2 (hn.div hds.1 hdiv) h

/-- The quotient of the first number by the others, or the reciprocal of the only one. -/
theorem quotientOf {ms : List Number} (hn : n.OnRealAxis) (hms : ∀ m ∈ ms, m.OnRealAxis)
    {q : Number} (h : Prelude.quotientOf n ms = .ok q) : q.OnRealAxis := by
  cases ms with
  | nil => exact (onRealAxis_ofInt 1).div hn h
  | cons m ms => exact foldlM_div hms hn h

end OnRealAxis

/-! ### Literals -/

/-- A double-precision number reads back from its text, and so does the one that is not a number. -/
theorem parseChars_text (x : Float) : parseChars (Binary64.text x) = some (ofFloat x) := by
  cases hnan : x.isNaN with
  | false => exact parseChars_real (realText_float hnan)
  | true =>
    obtain rfl := Binary64.eq_notANumber hnan
    decide

/-- A zero as imaginary part is not written, whatever its sign. -/
theorem chars_of_isReal {z : Cartesian Float} (h : z.isReal = true) :
    (inexact z).chars = Binary64.text z.re := if_pos h

/-- On the real axis a number is denoted by its own text. -/
theorem OnRealAxis.parse_text_eq {n : Number} (h : n.OnRealAxis) : parse n.text = some n := by
  rw [parse, text, String.toList_ofList]
  cases n with
  | exact z =>
    obtain ⟨x, y⟩ := z
    obtain rfl : y = 0 := h
    exact parseChars_real (realText_rational x)
  | inexact z =>
    obtain ⟨x, y⟩ := z
    obtain rfl : y = 0 := h
    rw [chars_of_isReal (Cartesian.isReal_of_im rfl)]
    exact parseChars_text x

/-! ### Below the cut -/

/-- The complex conjugate of an inexact number. -/
def conj : Number → Number
  | .exact z => .exact ⟨z.re, -z.im⟩
  | .inexact z => .inexact ⟨z.re, -z.im⟩

/-- The number is `x` with a negative zero as imaginary part.  Its text denotes `x` with a positive
zero, and on the cut the functions of it are the conjugates of those of what its text denotes. -/
structure LiesBelow (n : Number) (x : Float) : Prop where
  eq : n = .inexact ⟨x, -0⟩
  literal : parse n.text = some (ofFloat x)
  log : n.log = (ofFloat x).log.conj
  angle : ∃ a, (ofFloat x).angle = ofFloat a ∧ n.angle = ofFloat (-a)
  sqrt : n.sqrt = if x ≥ 0 then (ofFloat x).sqrt else (ofFloat x).sqrt.conj

theorem angle_inexact (z : Cartesian Float) : (inexact z).angle = ofFloat z.angle := by
  simp only [angle, real?]
  split_ifs <;> rfl

theorem isReal_neg_zero (x : Float) : (Cartesian.mk x (-0)).isReal = true := by
  show ((-0 : Float) == 0) = true
  decide

theorem liesBelow (x : Float) : LiesBelow (.inexact ⟨x, -0⟩) x where
  eq := rfl
  literal := by
    rw [parse, text, String.toList_ofList, chars_of_isReal (isReal_neg_zero x)]
    exact parseChars_text x
  log := by
    show inexact ⟨Binary64.log (Binary64.hypotenuse x (-0)), Binary64.atan2 (-0) x⟩ = _
    rw [Binary64.hypotenuse_neg_zero, Binary64.atan2_neg_zero]
    rfl
  angle := by
    refine ⟨Binary64.atan2 0 x, angle_inexact ⟨x, 0⟩, ?_⟩
    rw [angle_inexact, ← Binary64.atan2_neg_zero]
    rfl
  sqrt := by
    have habove : (Cartesian.mk x 0).isReal = true := Cartesian.isReal_of_im rfl
    show inexact (Cartesian.sqrt ⟨x, -0⟩) =
      if x ≥ 0 then inexact (Cartesian.sqrt ⟨x, 0⟩) else (inexact (Cartesian.sqrt ⟨x, 0⟩)).conj
    rw [Cartesian.sqrt, Cartesian.sqrt, isReal_neg_zero x, habove, if_pos rfl, if_pos rfl]
    simp only
    split_ifs with hx
    · rfl
    · rw [Binary64.copySign_neg_zero]
      rfl

end Number

/-! ### Calls -/

namespace Primitive

/-- The primitives that have the operations of a field. -/
def fieldOperations : List Primitive := [.add, .sub, .mul, .div]

/-- The negative of a single inexact number lies below the axis, and every other result lies on
it. -/
def IsOnAxisOrNegated (p : Primitive) (ns : List Number) (r : Number) : Prop :=
  (r.OnRealAxis ∧ ∀ x, ¬ (p = .sub ∧ ns = [.ofFloat x])) ∨
    ∃ x, p = .sub ∧ ns = [.ofFloat x] ∧ r = .inexact ⟨-x, -0⟩

theorem isOnAxisOrNegated_difference {n : Number} {ms : List Number} (hn : n.OnRealAxis)
    (hms : ∀ m ∈ ms, m.OnRealAxis) : sub.IsOnAxisOrNegated (n :: ms) (Prelude.difference n ms) := by
  cases ms with
  | cons m ms =>
    exact Or.inl ⟨Number.OnRealAxis.foldl Number.OnRealAxis.sub hms hn, fun x h => nomatch h.2⟩
  | nil =>
    cases n with
    | exact z =>
      have hneg : -z.im = 0 := neg_eq_zero.2 hn
      exact Or.inl ⟨hneg, fun x h => nomatch h.2⟩
    | inexact z =>
      -- the sign of the imaginary part changes with that of the real part
      obtain ⟨x, y⟩ := z
      obtain rfl : y = 0 := hn
      exact Or.inr ⟨x, rfl, rfl, rfl⟩

/-- **One call with numbers on the real axis.** -/
theorem run_on_axis {p : Primitive} (hp : p ∈ fieldOperations) {ns : List Number}
    (hns : ∀ n ∈ ns, n.OnRealAxis) (stamp : Nat) :
    (∃ e, p.shape.run stamp (ns.map (.number ·)) = .error e) ∨
      ∃ r : Number, p.shape.run stamp (ns.map (.number ·)) = .ok (.give (.number r)) ∧
        p.IsOnAxisOrNegated ns r := by
  have hzero := Number.onRealAxis_ofInt 0
  have hone := Number.onRealAxis_ofInt 1
  simp only [fieldOperations, List.mem_cons, List.not_mem_nil, or_false] at hp
  obtain rfl | rfl | rfl | rfl := hp
  · exact Or.inr ⟨_, Number.run_many_number _ stamp ns,
      Or.inl ⟨Number.OnRealAxis.foldl Number.OnRealAxis.add hns hzero, fun x h => nomatch h.1⟩⟩
  · cases ns with
    | nil => exact Or.inl ⟨_, rfl⟩
    | cons n ms =>
      rw [List.forall_mem_cons] at hns
      exact Or.inr ⟨_, run_difference stamp n ms, isOnAxisOrNegated_difference hns.1 hns.2⟩
  · exact Or.inr ⟨_, Number.run_many_number _ stamp ns,
      Or.inl ⟨Number.OnRealAxis.foldl Number.OnRealAxis.mul hns hone, fun x h => nomatch h.1⟩⟩
  · cases ns with
    | nil => exact Or.inl ⟨_, rfl⟩
    | cons n ms =>
      rw [List.forall_mem_cons] at hns
      have hrun := run_quotient stamp n ms
      cases hq : Prelude.quotientOf n ms with
      | error e => exact Or.inl ⟨_, by rw [hrun, hq]; rfl⟩
      | ok q =>
        exact Or.inr ⟨q, by rw [hrun, hq]; rfl,
          Or.inl ⟨hns.1.quotientOf hns.2 hq, fun x h => nomatch h.1⟩⟩

end Primitive

/-- **Arithmetic on the real axis.**  Whatever a call of `+`, `-`, `*` or `/` makes of real numbers
with an exact zero or a positive zero as imaginary part has such an imaginary part again, and is
what its own text denotes, so that the square root, the logarithm and the angle cannot tell them
apart.  Only the negative of a single inexact number has a negative zero: there the logarithm and
the angle, and the square root if the negative is below zero, are the conjugates of those of what
the text denotes. -/
theorem arithmetic_on_axis {p : Primitive} (hp : p ∈ Primitive.fieldOperations) {ns : List Number}
    (hns : ∀ n ∈ ns, n.OnRealAxis) {i i' : Interpreter} {v : Value}
    (h : i.AppliesTo (.object (.primitive p)) (ns.map (.number ·)) (.value v) i') :
    ∃ r : Number, v = .number r ∧
      ((r.OnRealAxis ∧ Number.parse r.text = some r ∧ ∀ x, ¬ (p = .sub ∧ ns = [.ofFloat x])) ∨
        ∃ x, p = .sub ∧ ns = [.ofFloat x] ∧ r.LiesBelow (-x)) := by
  obtain ⟨e, hrun⟩ | ⟨r, hrun, hr⟩ := Primitive.run_on_axis hp hns i.store.clock
  · exact absurd ((Interpreter.appliesTo_of_error hrun).1 h).1.symm Failure.outcome_ne_value
  · obtain ⟨hv, -⟩ := (Interpreter.appliesTo_of_give hrun).1 h
    cases hv
    refine ⟨r, rfl, ?_⟩
    obtain ⟨haxis, hother⟩ | ⟨x, hsub, hns, rfl⟩ := hr
    · exact Or.inl ⟨haxis, haxis.parse_text_eq, hother⟩
    · exact Or.inr ⟨x, hsub, hns, Number.liesBelow (-x)⟩

/-- The difference of an exact zero and `4.0` is on the axis, where the negative of `4.0` is not. -/
theorem arithmetic_on_axis_difference :
    let i := Interpreter.start 0 false
    ∃ r i', i.AppliesTo (.object (.primitive .sub)) [.number (.ofInt 0), .number (.ofFloat 4)]
        (.value (.number r)) i' ∧ r.OnRealAxis ∧ Number.parse r.text = some r := by
  intro i
  have hns : ∀ n ∈ [Number.ofInt 0, Number.ofFloat 4], n.OnRealAxis := by
    simp [Number.OnRealAxis, Number.ofInt, Number.ofRat, Number.ofFloat]
  have hsub : Primitive.sub ∈ Primitive.fieldOperations := by decide
  have hrun : Primitive.sub.shape.run i.store.clock [.number (.ofInt 0), .number (.ofFloat 4)] =
      .ok (.give (.number ((Number.ofInt 0).sub (.ofFloat 4)))) := rfl
  have happlies := (Interpreter.appliesTo_of_give (i := i) hrun).2 ⟨rfl, rfl⟩
  obtain ⟨r, hr, ⟨haxis, hparse, -⟩ | ⟨x, -, hx, -⟩⟩ := arithmetic_on_axis hsub hns happlies
  · cases hr
    exact ⟨_, _, happlies, haxis, hparse⟩
  · cases hx

/-- The negative of `4.0` is written as `-4.0` and has another square root than the literal. -/
theorem negative_off_axis :
    let i := Interpreter.start 0 false
    let n : Number := .inexact ⟨-4, -0⟩
    (∃ i', i.AppliesTo (.object (.primitive .sub)) [.number (.ofFloat 4)] (.value (.number n)) i') ∧
      (Number.ofFloat 4).OnRealAxis ∧ ¬ n.OnRealAxis ∧
      n.text = "-4.0" ∧ Number.parse "-4.0" = some (.ofFloat (-4)) ∧
      n.sqrt = .inexact ⟨0, -2⟩ ∧ (Number.ofFloat (-4)).sqrt = .inexact ⟨0, 2⟩ := by
  intro i n
  have hrun : Primitive.sub.shape.run i.store.clock [.number (.ofFloat 4)] =
      .ok (.give (.number n)) := rfl
  have haxis : ¬ (-0 : Float) = 0 := by decide
  refine ⟨⟨_, (Interpreter.appliesTo_of_give hrun).2 ⟨rfl, rfl⟩⟩, rfl, haxis, ?_⟩
  decide +kernel

end Scheme
