import Mathlib
import Scheme.Proofs.Ending
import Scheme.Proofs.Gaussian
import Scheme.Proofs.Primitives

/-!
# Contagion of inexactness

Sums, products, differences, quotients and extrema are exact if and only if all their arguments are.
They are made by operations of two numbers, each of which is exact if and only if both operands are,
and a list of arguments keeps what one operation does.  Only a quotient can fail, by an exact zero
among its divisors.

* `Number.isExact_combine`, `RealNumber.isExact_min`: one operation;
* `foldl_eq_and`: any number of operations;
* `Number.DividesBy`: a quotient by any number of divisors;
* `Primitive.acceptsNumbers_iff`: the arguments that do not fail for their number or their types;
* `Primitive.run_arithmetic`: one call with numbers;
* `Interpreter.appliesTo_of_give`, `Interpreter.appliesTo_of_error`: how the call of a primitive
  ends;
* `arithmetic_contagion`: the main result.
-/

namespace Scheme

/-! ### One operation after another -/

/-- What holds of a result if and only if it holds of both operands holds at the end if and only if
it holds of all operands. -/
theorem foldl_eq_and {α : Type} {op : α → α → α} {holds : α → Bool}
    (hop : ∀ x y, holds (op x y) = (holds x && holds y)) (x : α) (ys : List α) :
    holds (ys.foldl op x) = (holds x && ys.all holds) := by
  induction ys generalizing x with
  | nil => rw [List.foldl_nil, List.all_nil, Bool.and_true]
  | cons y ys ih => rw [List.foldl_cons, ih, hop, List.all_cons, Bool.and_assoc]

namespace RealNumber

theorem isExact_min (x y : RealNumber) : (min x y).isExact = (x.isExact && y.isExact) := by
  cases x <;> cases y <;> rfl

theorem isExact_max (x y : RealNumber) : (max x y).isExact = (x.isExact && y.isExact) := by
  cases x <;> cases y <;> rfl

end RealNumber

namespace Number

theorem isExact_ofReal (x : RealNumber) : (ofReal x).isExact = x.isExact := by
  cases x <;> rfl

/-- The value of a real number has its exactness. -/
theorem exists_real? {n : Number} (h : n.isReal = true) :
    ∃ x, n.real? = some x ∧ x.isExact = n.isExact := by
  cases n with
  | exact z => exact ⟨_, if_pos (of_decide_eq_true h), rfl⟩
  | inexact z => exact ⟨_, if_pos h, rfl⟩

theorem isReal_of_real? {n : Number} {x : RealNumber} (h : n.real? = some x) : n.isReal = true := by
  cases n with
  | exact z =>
    by_contra hreal
    exact absurd (h.symm.trans (if_neg (mt decide_eq_true hreal))) nofun
  | inexact z =>
    by_contra hreal
    exact absurd (h.symm.trans (if_neg hreal)) nofun

theorem isExact_combine (onExact : Cartesian Rat → Cartesian Rat → Cartesian Rat)
    (onInexact : Cartesian Float → Cartesian Float → Cartesian Float) (n m : Number) :
    (combine onExact onInexact n m).isExact = (n.isExact && m.isExact) := by
  cases n <;> cases m <;> rfl

theorem isExact_sum (ns : List Number) : (Prelude.sum ns).isExact = ns.all isExact :=
  foldl_eq_and (isExact_combine _ _) (ofInt 0) ns

theorem isExact_product (ns : List Number) : (Prelude.product ns).isExact = ns.all isExact :=
  foldl_eq_and (isExact_combine _ _) (ofInt 1) ns

theorem isExact_difference (n : Number) (ms : List Number) :
    (Prelude.difference n ms).isExact = (n :: ms).all isExact := by
  cases ms with
  | nil => cases n <;> rfl
  | cons m ms => exact foldl_eq_and (isExact_combine _ _) n (m :: ms)

/-! ### Quotients -/

/-- The result of a division by all of the divisors: it fails if an exact zero is among them, and is
a number of the given exactness otherwise. -/
def DividesBy (r : Except NumberError Number) (ds : List Number) (exact : Bool) : Prop :=
  (ofInt 0 ∈ ds ∧ r = .error .divideByZero) ∨ (ofInt 0 ∉ ds ∧ ∃ q, r = .ok q ∧ q.isExact = exact)

theorem isExact_and_isZero_iff {n : Number} : (n.isExact && n.isZero) = true ↔ n = ofInt 0 := by
  cases n with
  | exact z =>
    obtain ⟨x, y⟩ := z
    simp [isExact, isZero, ofInt, ofRat]
  | inexact z => simp [isExact, ofInt, ofRat]

/-- **One division.** -/
theorem dividesBy_div (n d : Number) : DividesBy (n.div d) [d] (n.isExact && d.isExact) := by
  unfold DividesBy div
  rw [List.mem_singleton, eq_comm (a := ofInt 0)]
  by_cases hd : d = ofInt 0
  · exact Or.inl ⟨hd, if_pos (isExact_and_isZero_iff.2 hd)⟩
  · exact Or.inr ⟨hd, _, if_neg (mt isExact_and_isZero_iff.1 hd), isExact_combine _ _ n d⟩

/-- **A division by one divisor after the other.** -/
theorem dividesBy_foldlM (n : Number) (ds : List Number) :
    DividesBy (ds.foldlM div n) ds (n.isExact && ds.all isExact) := by
  induction ds generalizing n with
  | nil => exact Or.inr ⟨List.not_mem_nil, n, rfl, (Bool.and_true _).symm⟩
  | cons d ds ih =>
    rw [List.foldlM_cons, List.all_cons, ← Bool.and_assoc]
    obtain ⟨hzero, hdiv⟩ | ⟨hzero, q, hdiv, hexact⟩ := dividesBy_div n d
    · refine Or.inl ⟨?_, by rw [hdiv]; rfl⟩
      exact List.mem_cons.2 (Or.inl (List.mem_singleton.1 hzero))
    · have hmem : ofInt 0 ∈ d :: ds ↔ ofInt 0 ∈ ds :=
        List.mem_cons.trans (or_iff_right (mt List.mem_singleton.2 hzero))
      rw [hdiv, ← hexact]
      unfold DividesBy
      rw [hmem]
      exact ih q

/-- The numbers that are divided by: the only one, or all but the first. -/
def divisors : List Number → List Number
  | [d] => [d]
  | ns => ns.tail

theorem dividesBy_quotientOf (n : Number) (ms : List Number) :
    DividesBy (Prelude.quotientOf n ms) (divisors (n :: ms)) ((n :: ms).all isExact) := by
  cases ms with
  | nil =>
    rw [List.all_cons, List.all_nil, Bool.and_true]
    exact dividesBy_div (ofInt 1) n
  | cons m ms => exact dividesBy_foldlM n (m :: ms)

end Number

/-! ### Calls with numbers -/

namespace Conversion

/-- Real numbers are converted to reals of the same exactness. -/
theorem exists_convertAll_real {ns : List Number} (h : ∀ n ∈ ns, n.isReal = true) :
    ∃ xs, real.convertAll (ns.map (.number ·)) = .ok xs ∧
      xs.map RealNumber.isExact = ns.map Number.isExact := by
  have hfrom (place : Nat) : ∃ xs, real.convertFrom place (ns.map (.number ·)) = .ok xs ∧
      xs.map RealNumber.isExact = ns.map Number.isExact := by
    induction ns generalizing place with
    | nil => exact ⟨[], rfl, rfl⟩
    | cons n ns ih =>
      rw [List.forall_mem_cons] at h
      obtain ⟨x, hx, hexact⟩ := Number.exists_real? h.1
      obtain ⟨xs, hxs, hrest⟩ := ih h.2 (place + 1)
      have hunwrap : real.unwrap (.number n) = some x := hx
      refine ⟨x :: xs, ?_, by rw [List.map_cons, List.map_cons, hexact, hrest]⟩
      rw [List.map_cons, convertFrom, convert, hunwrap]
      simp only [hxs]
  exact hfrom 1

/-- A number that is not real does not convert. -/
theorem exists_convertAll_error {ns : List Number} (h : ¬ ∀ n ∈ ns, n.isReal = true) :
    ∃ text, real.convertAll (ns.map (.number ·)) = .error (.typeMismatch text) := by
  have hfrom (place : Nat) :
      ∃ text, real.convertFrom place (ns.map (.number ·)) = .error (.typeMismatch text) := by
    induction ns generalizing place with
    | nil => exact absurd (List.forall_mem_nil _) h
    | cons n ns ih =>
      rw [List.map_cons, convertFrom, convert]
      cases hx : real.unwrap (.number n) with
      | none => exact ⟨_, rfl⟩
      | some x =>
        rw [List.forall_mem_cons] at h
        have hn : n.isReal = true := Number.isReal_of_real? hx
        obtain ⟨text, htext⟩ := ih (fun hns => h ⟨hn, hns⟩) (place + 1)
        exact ⟨text, by simp only [htext]⟩
  exact hfrom 1

end Conversion

namespace Shape

variable {α : Type} {arg : Conversion α} {f : α → List α → Except Failure α} {v : Value}
    {vs : List Value}

theorem run_oneOrMore {x : α} {xs : List α} (h : arg.convertAll (v :: vs) = .ok (x :: xs))
    (stamp : Nat) :
    (oneOrMore arg f).run stamp (v :: vs) = f x xs >>= give arg := by
  have hcount : (Arity.atLeast 1).accepts (v :: vs).length = true :=
    (Arity.accepts_atLeast 1 _).2 (Nat.succ_pos _)
  rw [run, checkArity_of_accepts hcount, h]
  show (Checked.sliceFrom (x :: xs) 1 >>= _) = _
  rw [Checked.sliceFrom_one]
  rfl

theorem run_oneOrMore_error {e : Failure} (h : arg.convertAll (v :: vs) = .error e) (stamp : Nat) :
    (oneOrMore arg f).run stamp (v :: vs) = .error e := by
  have hcount : (Arity.atLeast 1).accepts (v :: vs).length = true :=
    (Arity.accepts_atLeast 1 _).2 (Nat.succ_pos _)
  rw [run, checkArity_of_accepts hcount, h]
  rfl

end Shape

namespace Primitive

open Number (divisors ofInt)

/-- The primitives of arithmetic. -/
def arithmetic : List Primitive := [.add, .sub, .mul, .div, .min, .max]

/-- The primitives of arithmetic take any number of arguments, or they need one. -/
theorem arity_of_mem_arithmetic {p : Primitive} (hp : p ∈ arithmetic) :
    p.shape.arity = .atLeast 0 ∨ (p.shape.arity = .atLeast 1 ∧
      ∀ stamp, p.shape.run stamp [] = .error (Shape.wrongCount (.atLeast 1) [])) := by
  simp only [arithmetic, List.mem_cons, List.not_mem_nil, or_false] at hp
  obtain rfl | rfl | rfl | rfl | rfl | rfl := hp
  · exact Or.inl rfl
  · exact Or.inr ⟨rfl, fun _ => rfl⟩
  · exact Or.inl rfl
  · exact Or.inr ⟨rfl, fun _ => rfl⟩
  · exact Or.inr ⟨rfl, fun _ => rfl⟩
  · exact Or.inr ⟨rfl, fun _ => rfl⟩

/-- The primitive accepts the numbers as arguments: it takes so many, and extrema are of real
numbers. -/
structure AcceptsNumbers (p : Primitive) (ns : List Number) : Prop where
  count : p.shape.arity.accepts ns.length = true
  real : p = .min ∨ p = .max → ∀ n ∈ ns, n.isReal = true

theorem AcceptsNumbers.exists_cons {p : Primitive} {ns : List Number} (h : p.AcceptsNumbers ns)
    (hp : p.shape.arity = .atLeast 1) : ∃ m ms, ns = m :: ms := by
  have hcount := h.count
  rw [hp, Arity.accepts_atLeast] at hcount
  exact List.exists_cons_of_length_pos hcount

/-- The call is a failure of division, if `fails` holds, and otherwise it gives a number of the
given exactness. -/
def ComesTo (r : Except Failure Action) (fails : Prop) (exact : Bool) : Prop :=
  (fails ∧ r = .error (.number .divideByZero)) ∨
    (¬ fails ∧ ∃ n : Number, r = .ok (.give (.number n)) ∧ n.isExact = exact)

section Runs

variable (stamp : Nat)

theorem run_difference (n : Number) (ms : List Number) :
    sub.shape.run stamp ((n :: ms).map (.number ·)) =
      .ok (.give (.number (Prelude.difference n ms))) :=
  Shape.run_oneOrMore (Number.convertAll_number (n :: ms)) stamp

theorem run_quotient (n : Number) (ms : List Number) :
    div.shape.run stamp ((n :: ms).map (.number ·)) =
      Prelude.lift (Prelude.quotientOf n ms) >>= Shape.give .number :=
  Shape.run_oneOrMore (Number.convertAll_number (n :: ms)) stamp

/-- An extremum of real numbers is exact if and only if all of them are. -/
theorem exists_run_extremum {pick : RealNumber → RealNumber → RealNumber}
    (hpick : ∀ x y, (pick x y).isExact = (x.isExact && y.isExact)) {n : Number} {ns : List Number}
    (h : ∀ m ∈ n :: ns, m.isReal = true) :
    ∃ m : Number, (Prelude.extremum pick).run stamp ((n :: ns).map (.number ·)) =
      .ok (.give (.number m)) ∧
      m.isExact = (n :: ns).all Number.isExact := by
  obtain ⟨xs, hxs, hexact⟩ := Conversion.exists_convertAll_real h
  cases xs with
  | nil => cases hexact
  | cons x xs =>
    have hall : (x :: xs).all RealNumber.isExact = (n :: ns).all Number.isExact := by
      simpa using congrArg (·.all id) hexact
    refine ⟨.ofReal (xs.foldl pick x), Shape.run_oneOrMore hxs stamp, ?_⟩
    rw [Number.isExact_ofReal, foldl_eq_and hpick, ← hall, List.all_cons]

theorem exists_run_extremum_error (pick : RealNumber → RealNumber → RealNumber) {ns : List Number}
    (h : ¬ ∀ n ∈ ns, n.isReal = true) :
    ∃ text, (Prelude.extremum pick).run stamp (ns.map (.number ·)) =
      .error (.typeMismatch text) := by
  obtain ⟨text, htext⟩ := Conversion.exists_convertAll_error h
  cases ns with
  | nil => exact absurd (List.forall_mem_nil _) h
  | cons n ns => exact ⟨text, Shape.run_oneOrMore_error htext stamp⟩

end Runs

/-- **A call of arithmetic with numbers** that it accepts. -/
theorem run_arithmetic {p : Primitive} (hp : p ∈ arithmetic) {ns : List Number}
    (hns : p.AcceptsNumbers ns) (stamp : Nat) :
    ComesTo (p.shape.run stamp (ns.map (.number ·))) (p = .div ∧ ofInt 0 ∈ divisors ns)
      (ns.all Number.isExact) := by
  simp only [arithmetic, List.mem_cons, List.not_mem_nil, or_false] at hp
  obtain rfl | rfl | rfl | rfl | rfl | rfl := hp
  · exact Or.inr ⟨fun h => absurd h.1 nofun, _, Number.run_many_number _ stamp ns,
      Number.isExact_sum ns⟩
  · obtain ⟨n, ms, rfl⟩ := hns.exists_cons rfl
    exact Or.inr ⟨fun h => absurd h.1 nofun, _, run_difference stamp n ms,
      Number.isExact_difference n ms⟩
  · exact Or.inr ⟨fun h => absurd h.1 nofun, _, Number.run_many_number _ stamp ns,
      Number.isExact_product ns⟩
  · obtain ⟨n, ms, rfl⟩ := hns.exists_cons rfl
    have hrun := run_quotient stamp n ms
    obtain ⟨hzero, hq⟩ | ⟨hzero, q, hq, hexact⟩ := Number.dividesBy_quotientOf n ms
    · exact Or.inl ⟨⟨rfl, hzero⟩, by rw [hrun, hq]; rfl⟩
    · exact Or.inr ⟨fun h => hzero h.2, q, by rw [hrun, hq]; rfl, hexact⟩
  · obtain ⟨n, ms, rfl⟩ := hns.exists_cons rfl
    exact Or.inr ⟨fun h => absurd h.1 nofun,
      exists_run_extremum stamp RealNumber.isExact_min (hns.real (Or.inl rfl))⟩
  · obtain ⟨n, ms, rfl⟩ := hns.exists_cons rfl
    exact Or.inr ⟨fun h => absurd h.1 nofun,
      exists_run_extremum stamp RealNumber.isExact_max (hns.real (Or.inr rfl))⟩

/-- The numbers that a primitive of arithmetic accepts are those with which its call has no error
but of a division by zero. -/
theorem acceptsNumbers_iff {p : Primitive} (hp : p ∈ arithmetic) {ns : List Number} (stamp : Nat) :
    p.AcceptsNumbers ns ↔
      ∀ failure, p.shape.run stamp (ns.map (.number ·)) = .error failure →
        failure = .number .divideByZero := by
  constructor
  · intro hns failure he
    obtain ⟨-, hrun⟩ | ⟨-, n, hrun, -⟩ := run_arithmetic hp hns stamp
    · cases he.symm.trans hrun
      rfl
    · cases he.symm.trans hrun
  · intro h
    refine ⟨?_, fun hextremum => ?_⟩
    · obtain harity | ⟨harity, hempty⟩ := arity_of_mem_arithmetic hp
      · rw [harity, Arity.accepts_atLeast]
        exact Nat.zero_le _
      · rw [harity, Arity.accepts_atLeast, Nat.one_le_iff_ne_zero, Ne, List.length_eq_zero_iff]
        rintro rfl
        cases h _ (hempty stamp)
    · by_contra hreal
      have hrun : ∃ text, p.shape.run stamp (ns.map (.number ·)) = .error (.typeMismatch text) := by
        obtain rfl | rfl := hextremum
        · exact exists_run_extremum_error stamp RealNumber.min hreal
        · exact exists_run_extremum_error stamp RealNumber.max hreal
      obtain ⟨text, htext⟩ := hrun
      cases h _ htext

end Primitive

/-! ### The ends of calls -/

/-- The outcome that a failure leads to. -/
def Failure.outcome : Failure → Outcome
  | .error e => .error e
  | .breach b => .stuck b

theorem Failure.outcome_ne_value {failure : Failure} {v : Value} : failure.outcome ≠ .value v := by
  cases failure <;> nofun

namespace Interpreter

variable {i i' : Interpreter} {p : Primitive} {args : List Value} {o : Outcome}

/-- A call that stops after one step has the end where it stops, and no other. -/
theorem appliesTo_of_step {f : Value} {c : Config} {r : Outcome}
    (hstep : Config.step i.settings ⟨.apply f args, [], 0, i.store⟩ = c)
    (hc : c.outcome? = some r) :
    i.AppliesTo f args o i' ↔ o = r ∧ i' = ⟨i.settings, c.store⟩ := by
  rw [appliesTo_iff]
  simp only [← Config.ends_step_iff (c := ⟨.apply f args, [], 0, i.store⟩), hstep,
    Config.ends_of_outcome hc]
  constructor
  · rintro ⟨c', ⟨ho, rfl⟩, hi'⟩
    exact ⟨ho, hi'⟩
  · rintro ⟨ho, hi'⟩
    exact ⟨c, ⟨ho, rfl⟩, hi'⟩

theorem appliesTo_of_give {v : Value} (h : p.shape.run i.store.clock args = .ok (.give v)) :
    i.AppliesTo (.object (.primitive p)) args o i' ↔ o = .value v ∧ i' = i.mapStore Store.tick := by
  refine appliesTo_of_step (c := ⟨.ret v, [], 0, i.store.tick⟩) ?_ rfl
  show Config.callPrimitive _ p args = _
  unfold Config.callPrimitive
  simp only [h]
  rfl

theorem appliesTo_of_error {failure : Failure}
    (h : p.shape.run i.store.clock args = .error failure) :
    i.AppliesTo (.object (.primitive p)) args o i' ↔
      o = (failure.named p.name).outcome ∧ i' = i := by
  have hstep : Config.step i.settings ⟨.apply (.object (.primitive p)) args, [], 0, i.store⟩ =
      Config.throw ⟨.apply (.object (.primitive p)) args, [], 0, i.store⟩
        (failure.named p.name) := by
    show Config.callPrimitive _ p args = _
    unfold Config.callPrimitive
    simp only [h]
  cases hnamed : failure.named p.name with
  | error e =>
    rw [hnamed] at hstep
    exact appliesTo_of_step hstep rfl
  | breach b =>
    rw [hnamed] at hstep
    exact appliesTo_of_step hstep rfl

end Interpreter

/-- **Contagion of inexactness.**  The primitives of arithmetic, called with numbers that they
accept, come to one end.  It is an error only for `/`, namely of a division by zero under its name,
and this if and only if an exact zero is among the divisors.  Otherwise it is a number, which is
exact if and only if all arguments are. -/
theorem arithmetic_contagion {p : Primitive} (hp : p ∈ Primitive.arithmetic) {ns : List Number}
    (hns : p.AcceptsNumbers ns) (i : Interpreter) :
    ∃ o i',
      (∀ o₁ i₁, i.AppliesTo (.object (.primitive p)) (ns.map (.number ·)) o₁ i₁ ↔
        o₁ = o ∧ i₁ = i') ∧
      if p = .div ∧ Number.ofInt 0 ∈ Number.divisors ns then
        o = .error { kind := .divideByZero, name := "/" }
      else ∃ r : Number, o = .value (.number r) ∧
        (r.isExact = true ↔ ∀ n ∈ ns, n.isExact = true) := by
  obtain ⟨hfails, hrun⟩ | ⟨hfails, r, hrun, hexact⟩ := Primitive.run_arithmetic hp hns i.store.clock
  · refine ⟨_, _, fun _ _ => Interpreter.appliesTo_of_error hrun, ?_⟩
    rw [if_pos hfails, hfails.1]
    rfl
  · refine ⟨_, _, fun _ _ => Interpreter.appliesTo_of_give hrun, ?_⟩
    rw [if_neg hfails]
    exact ⟨r, rfl, by rw [hexact, List.all_eq_true]⟩

/-- An inexact one divided by an exact zero fails, and an exact one divided by an inexact zero does
not. -/
theorem arithmetic_contagion_division :
    let i := Interpreter.start 0 false
    let call (ns : List Number) := i.AppliesTo (.object (.primitive .div)) (ns.map (.number ·))
    (∃ i', call [.ofFloat 1, .ofInt 0] (.error { kind := .divideByZero, name := "/" }) i') ∧
      ∃ r i', call [.ofInt 1, .ofFloat 0] (.value (.number r)) i' ∧ r.isExact = false := by
  intro i call
  have haccepts (n m : Number) : Primitive.div.AcceptsNumbers [n, m] :=
    ⟨rfl, by rintro (h | h) <;> cases h⟩
  have hdiv : Primitive.div ∈ Primitive.arithmetic := by decide
  constructor
  · obtain ⟨o, i', hends, ho⟩ := arithmetic_contagion hdiv (haccepts (.ofFloat 1) (.ofInt 0)) i
    rw [if_pos ⟨rfl, List.mem_singleton_self _⟩] at ho
    exact ⟨i', (hends _ _).2 ⟨ho.symm, rfl⟩⟩
  · obtain ⟨o, i', hends, ho⟩ := arithmetic_contagion hdiv (haccepts (.ofInt 1) (.ofFloat 0)) i
    have hzero : Number.ofInt 0 ∉ Number.divisors [.ofInt 1, .ofFloat 0] := by
      show Number.ofInt 0 ∉ [Number.ofFloat 0]
      rw [List.mem_singleton]
      nofun
    rw [if_neg fun h => hzero h.2] at ho
    obtain ⟨r, ho, hexact⟩ := ho
    refine ⟨r, i', (hends _ _).2 ⟨ho.symm, rfl⟩, Bool.eq_false_iff.2 fun hr => ?_⟩
    exact absurd (hexact.1 hr (.ofFloat 0) (by simp)) nofun

end Scheme
