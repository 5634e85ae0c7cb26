import Mathlib
import Scheme.Proofs.Contagion

/-!
# The order of checks in a call

A primitive counts its arguments, converts them from left to right, and applies its function to all
that it has converted.  The first check that fails ends the call, and the error says what was wrong.
One shape converts before it counts, so that there a value of another type is reported rather than a
wrong number.

* `Failure.Attributed`: what becomes of the failure of a function;
* `Shape.expectation`, `Shape.FirstMismatch`: the types of arguments, and the first argument that
  has another;
* `Shape.Applies`: the function of a shape, applied to converted arguments;
* `Shape.run_of_refused`, `Shape.run_of_firstMismatch`, `Shape.applies_run`: the three ends of a
  call;
* `calls_follow_protocol`: the main result.
-/

namespace Scheme

/-! ### Failures of functions -/

/-- **What becomes of a failure** of the function of a primitive with the given name.  An error of
evaluation keeps the name it has, an error of the layers below becomes one of evaluation, and what
breaks off stays so. -/
inductive Failure.Attributed (name : String) : Failure → Failure → Prop where
  | unnamed {e : EvalError} (h : e.name = "") :
      Attributed name (.error e) (.error { e with name := name })
  | keeps {e : EvalError} (h : e.name ≠ "") : Attributed name (.error e) (.error e)
  | divideByZero :
    Attributed name (.number .divideByZero) (.error { kind := .divideByZero, name := name })
  | improperList : Attributed name .improperList (.error { kind := .notList, name := name })
  | number {e : NumberError} (h : e ≠ .divideByZero) :
    Attributed name (.number e)
      (.error { kind := .typeMismatch, name := name, detail := e.message })
  | other (text : String) : Attributed name (.breach (.sentinel (.other text)))
    (.error { kind := .typeMismatch, name := name, detail := text })
  | panic (p : Panic) : Attributed name (.panic p) (.panic p)

theorem Failure.attributed_named (name : String) (failure : Failure) :
    failure.Attributed name (failure.named name) := by
  cases failure with
  | error e =>
    by_cases h : e.name = ""
    · have hnamed : (Failure.error e).named name = .error { e with name := name } :=
        congrArg Failure.error (if_pos h)
      rw [hnamed]
      exact .unnamed h
    · have hnamed : (Failure.error e).named name = .error e := congrArg Failure.error (if_neg h)
      rw [hnamed]
      exact .keeps h
  | breach b =>
    cases b with
    | panic p => exact .panic p
    | sentinel s =>
      cases s with
      | improperList => exact .improperList
      | other text => exact .other text
      | number e =>
        cases e with
        | divideByZero => exact .divideByZero
        | _ => exact .number nofun

/-! ### Types of arguments -/

/-- What is asked of an argument: the name of a type, and the values that have it. -/
structure Expectation where
  name : String
  holds : Value → Bool

/-- The error of a primitive about the argument with the given index. -/
def Expectation.mismatch (x : Expectation) (name : String) (index : Nat) (v : Value) : EvalError :=
  { kind := .typeMismatch, name := name,
    detail :=
      "argument " ++ toString (index + 1) ++ ": expected " ++ x.name ++ ", got " ++ v.write }

namespace Conversion

variable {α : Type} {c : Conversion α} {v : Value} {args : List Value}

/-- What a conversion asks of a value. -/
def expectation (c : Conversion α) : Expectation := ⟨c.name, fun v => (c.unwrap v).isSome⟩

/-- The conversion takes these values out of the arguments, in order. -/
def Takes (c : Conversion α) (args : List Value) (xs : List α) : Prop :=
  List.Forall₂ (fun v x => c.unwrap v = some x) args xs

theorem convert_of_unwrap {x : α} (h : c.unwrap v = some x) (place : Nat) :
    c.convert place v = .ok x := by
  unfold convert
  rw [h]

theorem convert_of_not_holds (h : c.expectation.holds v = false) (index : Nat) :
    c.convert (index + 1) v = .error (.error (c.expectation.mismatch "" index v)) := by
  unfold convert
  rw [Option.isSome_eq_false_iff.1 h |> Option.isNone_iff_eq_none.1]
  rfl

theorem convertFrom_of_takes {xs : List α} (h : c.Takes args xs) (place : Nat) :
    c.convertFrom place args = .ok xs := by
  induction h generalizing place with
  | nil => rfl
  | cons hx _ ih =>
    rw [convertFrom, convert_of_unwrap hx]
    simp only [ih]

theorem convertAll_of_takes {xs : List α} (h : c.Takes args xs) : c.convertAll args = .ok xs :=
  convertFrom_of_takes h 1

/-- The first argument that does not convert is the one that the error is about. -/
theorem convertFrom_error {i : Nat} (hget : args[i]? = some v) (hv : c.expectation.holds v = false)
    (hbefore : ∀ j < i, ∀ w, args[j]? = some w → c.expectation.holds w = true) (index : Nat) :
    c.convertFrom (index + 1) args = .error (.error (c.expectation.mismatch "" (index + i) v)) := by
  induction args generalizing i index with
  | nil => cases hget
  | cons w args ih =>
    rw [convertFrom]
    cases i with
    | zero =>
      cases hget
      rw [convert_of_not_holds hv]
      rfl
    | succ i =>
      obtain ⟨x, hx⟩ := Option.isSome_iff_exists.1 (hbefore 0 (Nat.succ_pos i) w rfl)
      have hrest := ih hget (fun j hj => hbefore (j + 1) (Nat.succ_lt_succ hj)) (index + 1)
      rw [convert_of_unwrap hx]
      simp only [hrest, Nat.add_right_comm index 1 i, Nat.add_assoc]

theorem convertAll_error {i : Nat} (hget : args[i]? = some v) (hv : c.expectation.holds v = false)
    (hbefore : ∀ j < i, ∀ w, args[j]? = some w → c.expectation.holds w = true) :
    c.convertAll args = .error (.error (c.expectation.mismatch "" i v)) := by
  have h := convertFrom_error hget hv hbefore 0
  rw [Nat.zero_add, Nat.zero_add] at h
  exact h

/-- If every argument converts, so do all of them together. -/
theorem exists_takes (h : ∀ (i : Nat) w, args[i]? = some w → c.expectation.holds w = true) :
    ∃ xs, c.Takes args xs := by
  induction args with
  | nil => exact ⟨[], .nil⟩
  | cons v args ih =>
    obtain ⟨x, hx⟩ := Option.isSome_iff_exists.1 (h 0 v rfl)
    obtain ⟨xs, hxs⟩ := ih fun i w hw => h (i + 1) w hw
    exact ⟨x :: xs, .cons hx hxs⟩

end Conversion

namespace Shape

/-- What the shape asks of the argument with the given index. -/
def expectation : Shape → Nat → Expectation
  | .many arg _, _ => arg.expectation
  | .oneOrMore arg _, _ => arg.expectation
  | .twoOrMoreLate arg _ _, _ => arg.expectation
  | .twoOrMore arg _ _, _ => arg.expectation
  | .one arg _ _, _ => arg.expectation
  | .two first _ _ _, 0 => first.expectation
  | .two _ second _ _, _ + 1 => second.expectation
  | .raw .., _ => Conversion.any.expectation

/-- Arguments are counted before they are converted. -/
def countsFirst : Shape → Bool
  | .twoOrMoreLate .. => false
  | _ => true

/-- All arguments convert. -/
def Converts (shape : Shape) (args : List Value) : Prop :=
  ∀ i v, args[i]? = some v → (shape.expectation i).holds v = true

/-- The argument with the index `i` is `v`, and it is the first that does not convert. -/
structure FirstMismatch (shape : Shape) (args : List Value) (i : Nat) (v : Value) : Prop where
  getElem : args[i]? = some v
  fails : (shape.expectation i).holds v = false
  before : ∀ j < i, ∀ w, args[j]? = some w → (shape.expectation j).holds w = true

theorem converts_or_firstMismatch (shape : Shape) (args : List Value) :
    shape.Converts args ∨ ∃ i v, shape.FirstMismatch args i v := by
  by_cases h : ∃ i v, args[i]? = some v ∧ (shape.expectation i).holds v = false
  · classical
    obtain ⟨v, hget, hv⟩ := Nat.find_spec h
    refine Or.inr ⟨Nat.find h, v, hget, hv, fun j hj w hw => ?_⟩
    by_contra hfails
    exact Nat.find_min h hj ⟨w, hw, Bool.eq_false_iff.2 hfails⟩
  · refine Or.inl fun i v hv => ?_
    by_contra hfails
    exact h ⟨i, v, hv, Bool.eq_false_iff.2 hfails⟩

/-! ### Calls -/

/-- The function of the shape, applied to arguments that convert, comes to this result.  What the
function gives is put back, and its error is left as it is. -/
inductive Applies (stamp : Nat) : Shape → List Value → Except Failure Action → Prop where
  | many {α : Type} {arg : Conversion α} {f : Nat → List α → α} {args : List Value} {xs : List α}
      (hxs : arg.Takes args xs) :
      Applies stamp (.many arg f) args (.ok (.give (arg.wrap (f stamp xs))))
  | oneOrMore {α : Type} {arg : Conversion α} {f : α → List α → Except Failure α}
      {args : List Value} {x : α}
      {rest : List α} (hxs : arg.Takes args (x :: rest)) :
      Applies stamp (.oneOrMore arg f) args ((f x rest).map fun y => .give (arg.wrap y))
  | twoOrMoreLate {α β : Type} {arg : Conversion α} {result : Conversion β} {f : α → α → List α → β}
      {args : List Value} {x y : α} {rest : List α} (hxs : arg.Takes args (x :: y :: rest)) :
      Applies stamp (.twoOrMoreLate arg result f) args (.ok (.give (result.wrap (f x y rest))))
  | twoOrMore {α β : Type} {arg : Conversion α} {result : Conversion β} {f : α → α → List α → β}
      {args : List Value} {x y : α} {rest : List α} (hxs : arg.Takes args (x :: y :: rest)) :
      Applies stamp (.twoOrMore arg result f) args (.ok (.give (result.wrap (f x y rest))))
  | one {α β : Type} {arg : Conversion α} {result : Conversion β} {f : α → Except Failure β}
      {v : Value} {x : α}
      (hx : arg.unwrap v = some x) :
      Applies stamp (.one arg result f) [v] ((f x).map fun y => .give (result.wrap y))
  | two {α β γ : Type} {first : Conversion α} {second : Conversion β} {result : Conversion γ}
      {f : Nat → α → β → Except Failure γ} {v w : Value} {x : α} {y : β}
      (hx : first.unwrap v = some x)
      (hy : second.unwrap w = some y) :
      Applies stamp (.two first second result f) [v, w]
        ((f stamp x y).map fun z => .give (result.wrap z))
  | raw {arity : Arity} {f : Nat → List Value → Except Failure Action} {args : List Value} :
      Applies stamp (.raw arity f) args (f stamp args)

/-- A call under the name of a primitive. -/
def call (shape : Shape) (name : String) (stamp : Nat) (args : List Value) :
    Except Failure Action :=
  (shape.run stamp args).mapError (Failure.named name)

variable {shape : Shape} {args : List Value}

/-- At least two arguments are converted to at least two. -/
theorem exists_takes_two {α : Type} {arg : Conversion α}
    (hcount : (Arity.atLeast 2).accepts args.length = true)
    (h : ∀ (i : Nat) v, args[i]? = some v → arg.expectation.holds v = true) :
    ∃ x y rest, arg.Takes args (x :: y :: rest) := by
  obtain ⟨xs, hxs⟩ := Conversion.exists_takes h
  have hlen := (Arity.accepts_atLeast 2 _).1 hcount
  rw [List.Forall₂.length_eq hxs] at hlen
  match xs, hlen, hxs with
  | [], hlen, _ | [_], hlen, _ => simp at hlen
  | x :: y :: rest, _, hxs => exact ⟨x, y, rest, hxs⟩

theorem checkArity_bind_of_accepts {α : Type} {arity : Arity} (h : arity.accepts args.length = true)
    (k : Unit → Except Failure α) : checkArity arity args >>= k = k () := by
  rw [checkArity_of_accepts h]
  rfl

theorem checkArity_bind_of_refuses {α : Type} {arity : Arity}
    (h : arity.accepts args.length = false) (k : Unit → Except Failure α) :
    checkArity arity args >>= k = .error (wrongCount arity args) := by
  rw [checkArity_of_refuses h]
  rfl

theorem applyTwoOrMore_cons_cons {α β : Type} (result : Conversion β) (f : α → α → List α → β)
    (x y : α) (rest : List α) :
    applyTwoOrMore result f (x :: y :: rest) = .ok (.give (result.wrap (f x y rest))) := by
  show (Checked.sliceFrom (x :: y :: rest) 2 >>= _) = _
  rw [Checked.sliceFrom_two]
  rfl

/-- **A wrong number of arguments** ends the call, once all of them convert if that comes first. -/
theorem run_of_refused (h : shape.arity.accepts args.length = false)
    (hfirst : shape.countsFirst = false → shape.Converts args) (stamp : Nat) :
    shape.run stamp args = .error (wrongCount shape.arity args) := by
  cases shape with
  | many arg f => exact absurd ((Arity.refuses_atLeast 0 _).1 h) (Nat.not_lt_zero _)
  | twoOrMoreLate arg result f =>
    obtain ⟨xs, hxs⟩ := Conversion.exists_takes (hfirst rfl)
    show (arg.convertAll args >>= _) = _
    rw [Conversion.convertAll_of_takes hxs]
    exact checkArity_bind_of_refuses h _
  | oneOrMore | twoOrMore | one | two | raw => exact checkArity_bind_of_refuses h _

/-- **The first argument of another type** ends the call, once their number is accepted if that
comes first. -/
theorem run_of_firstMismatch {i : Nat} {v : Value} (h : shape.FirstMismatch args i v)
    (hcount : shape.countsFirst = true → shape.arity.accepts args.length = true) (stamp : Nat) :
    shape.run stamp args = .error (.error ((shape.expectation i).mismatch "" i v)) := by
  obtain ⟨hget, hv, hbefore⟩ := h
  cases shape with
  | many arg f | twoOrMoreLate arg result f =>
    show (arg.convertAll args >>= _) = _
    rw [Conversion.convertAll_error hget hv hbefore]
    rfl
  | oneOrMore arg f | twoOrMore arg result f =>
    refine (checkArity_bind_of_accepts (hcount rfl) _).trans ?_
    show (arg.convertAll args >>= _) = _
    rw [Conversion.convertAll_error hget hv hbefore]
    rfl
  | one arg result f =>
    obtain ⟨w, rfl⟩ := List.length_eq_one_iff.1 ((Arity.accepts_exactly 1 _).1 (hcount rfl))
    cases i with
    | succ i => cases hget
    | zero =>
      cases hget
      show (arg.convert 1 v >>= _) = _
      rw [Conversion.convert_of_not_holds hv]
      rfl
  | two first second result f =>
    obtain ⟨a, b, rfl⟩ := List.length_eq_two.1 ((Arity.accepts_exactly 2 _).1 (hcount rfl))
    show (first.convert 1 a >>= _) = _
    cases i with
    | zero =>
      cases hget
      rw [Conversion.convert_of_not_holds hv]
      rfl
    | succ i =>
      cases i with
      | succ i => cases hget
      | zero =>
        cases hget
        obtain ⟨x, hx⟩ := Option.isSome_iff_exists.1 (hbefore 0 Nat.one_pos a rfl)
        rw [Conversion.convert_of_unwrap hx]
        show (second.convert 2 v >>= _) = _
        rw [Conversion.convert_of_not_holds hv]
        rfl
  | raw arity f => cases hv

theorem bind_give {β : Type} (result : Conversion β) (y : Except Failure β) :
    y >>= give result = y.map fun y => .give (result.wrap y) := by
  cases y <;> rfl

section Runs

variable {α β γ : Type} {stamp : Nat} {v w : Value}

theorem run_many {arg : Conversion α} {f : Nat → List α → α} {xs : List α} (h : arg.Takes args xs) :
    (many arg f).run stamp args = .ok (.give (arg.wrap (f stamp xs))) := by
  show (arg.convertAll args >>= _) = _
  rw [Conversion.convertAll_of_takes h]
  rfl

theorem run_twoOrMoreLate {arg : Conversion α} {result : Conversion β} {f : α → α → List α → β}
    {x y : α} {rest : List α} (hcount : (Arity.atLeast 2).accepts args.length = true)
    (h : arg.Takes args (x :: y :: rest)) :
    (twoOrMoreLate arg result f).run stamp args = .ok (.give (result.wrap (f x y rest))) := by
  show (arg.convertAll args >>= _) = _
  rw [Conversion.convertAll_of_takes h]
  exact (checkArity_bind_of_accepts hcount _).trans (applyTwoOrMore_cons_cons result f x y rest)

theorem run_twoOrMore {arg : Conversion α} {result : Conversion β} {f : α → α → List α → β}
    {x y : α} {rest : List α} (hcount : (Arity.atLeast 2).accepts args.length = true)
    (h : arg.Takes args (x :: y :: rest)) :
    (twoOrMore arg result f).run stamp args = .ok (.give (result.wrap (f x y rest))) := by
  refine (checkArity_bind_of_accepts hcount _).trans ?_
  show (arg.convertAll args >>= _) = _
  rw [Conversion.convertAll_of_takes h]
  exact applyTwoOrMore_cons_cons result f x y rest

theorem run_one {arg : Conversion α} {result : Conversion β} {f : α → Except Failure β} {x : α}
    (hx : arg.unwrap v = some x) :
    (one arg result f).run stamp [v] = (f x).map fun y => .give (result.wrap y) := by
  show (arg.convert 1 v >>= _) = _
  rw [Conversion.convert_of_unwrap hx]
  exact bind_give result (f x)

theorem run_two {first : Conversion α} {second : Conversion β} {result : Conversion γ}
    {f : Nat → α → β → Except Failure γ} {x : α} {y : β} (hx : first.unwrap v = some x)
    (hy : second.unwrap w = some y) :
    (two first second result f).run stamp [v, w] =
      (f stamp x y).map fun z => .give (result.wrap z) := by
  show (first.convert 1 v >>= _) = _
  rw [Conversion.convert_of_unwrap hx]
  show (second.convert 2 w >>= _) = _
  rw [Conversion.convert_of_unwrap hy]
  exact bind_give result (f stamp x y)

end Runs

/-- **A call that passes both checks** comes to what the function of the shape comes to. -/
theorem applies_run (hcount : shape.arity.accepts args.length = true) (h : shape.Converts args)
    (stamp : Nat) :
    shape.Applies stamp args (shape.run stamp args) := by
  cases shape with
  | many arg f =>
    obtain ⟨xs, hxs⟩ := Conversion.exists_takes h
    rw [run_many hxs]
    exact .many hxs
  | oneOrMore arg f =>
    obtain ⟨v, vs, rfl⟩ := List.exists_cons_of_length_pos ((Arity.accepts_atLeast 1 _).1 hcount)
    obtain ⟨xs, hxs⟩ := Conversion.exists_takes h
    cases hxs with
    | @cons _ x _ xs hx hxs =>
      have hall : arg.Takes (v :: vs) (x :: xs) := .cons hx hxs
      rw [run_oneOrMore (Conversion.convertAll_of_takes hall), bind_give]
      exact .oneOrMore hall
  | twoOrMoreLate arg result f =>
    obtain ⟨x, y, rest, hxs⟩ := exists_takes_two hcount h
    rw [run_twoOrMoreLate hcount hxs]
    exact .twoOrMoreLate hxs
  | twoOrMore arg result f =>
    obtain ⟨x, y, rest, hxs⟩ := exists_takes_two hcount h
    rw [run_twoOrMore hcount hxs]
    exact .twoOrMore hxs
  | one arg result f =>
    obtain ⟨v, rfl⟩ := List.length_eq_one_iff.1 ((Arity.accepts_exactly 1 _).1 hcount)
    obtain ⟨x, hx⟩ := Option.isSome_iff_exists.1 (h 0 v rfl)
    rw [run_one hx]
    exact .one hx
  | two first second result f =>
    obtain ⟨v, w, rfl⟩ := List.length_eq_two.1 ((Arity.accepts_exactly 2 _).1 hcount)
    obtain ⟨x, hx⟩ := Option.isSome_iff_exists.1 (h 0 v rfl)
    obtain ⟨y, hy⟩ := Option.isSome_iff_exists.1 (h 1 w rfl)
    rw [run_two hx hy]
    exact .two hx hy
  | raw arity f =>
    have hrun : (raw arity f).run stamp args = f stamp args := checkArity_bind_of_accepts hcount _
    rw [hrun]
    exact .raw

/-- Only a shape that converts nothing asks for more than to give a value. -/
theorem Applies.exists_give {stamp : Nat} {r : Except Failure Action}
    (h : shape.Applies stamp args r) {a : Action} (ha : r = .ok a) :
    (∃ v, a = .give v) ∨ ∃ arity f, shape = .raw arity f := by
  have hmap {β : Type} {x : Except Failure β} {wrap : β → Value}
      (hx : (x.map fun y => .give (wrap y)) = .ok a) :
      ∃ v, a = .give v := by
    cases x with
    | ok y =>
      cases hx
      exact ⟨_, rfl⟩
    | error e => cases hx
  cases h with
  | many | twoOrMoreLate | twoOrMore =>
    cases ha
    exact Or.inl ⟨_, rfl⟩
  | oneOrMore | one | two => exact Or.inl (hmap ha)
  | raw => exact Or.inr ⟨_, _, rfl⟩

theorem exists_give {stamp : Nat} {a : Action} (h : shape.run stamp args = .ok a) :
    (∃ v, a = .give v) ∨ ∃ arity f, shape = .raw arity f := by
  have hne (e : Failure) : shape.run stamp args ≠ .error e := by
    rw [h]
    nofun
  obtain hconverts | ⟨i, v, hmismatch⟩ := shape.converts_or_firstMismatch args
  · cases hcount : shape.arity.accepts args.length with
    | true => exact (applies_run hcount hconverts stamp).exists_give h
    | false => exact absurd (run_of_refused hcount (fun _ => hconverts) stamp) (hne _)
  · refine absurd (run_of_firstMismatch hmismatch (fun hfirst => ?_) stamp) (hne _)
    by_contra hcount
    have hlate : shape.countsFirst = false → shape.Converts args := by
      rw [hfirst]
      nofun
    exact hne _ (run_of_refused (Bool.eq_false_iff.2 hcount) hlate stamp)

/-- A call under the name of a primitive goes through its checks in order. -/
structure FollowsProtocol (shape : Shape) (name : String) (stamp : Nat) (args : List Value) :
    Prop where
  /-- A wrong number is an error, unless a conversion has failed before. -/
  wrongCount : shape.arity.accepts args.length = false →
    (shape.countsFirst = false → shape.Converts args) →
    shape.call name stamp args = .error (.error (.argumentCount name shape.arity args.length))
  /-- The first argument of another type is an error, unless their number was one before. -/
  mismatch : ∀ i v, shape.FirstMismatch args i v →
    (shape.countsFirst = true → shape.arity.accepts args.length = true) →
    shape.call name stamp args = .error (.error ((shape.expectation i).mismatch name i v))
  /-- Otherwise the function is applied to what all arguments convert to, and its failure is
  attributed to the primitive. -/
  applies : shape.arity.accepts args.length = true → shape.Converts args →
    ∃ r, shape.Applies stamp args r ∧ (∀ a, r = .ok a → shape.call name stamp args = .ok a) ∧
      ∀ failure, r = .error failure →
        ∃ failure', failure.Attributed name failure' ∧ shape.call name stamp args = .error failure'
  /-- There is no other case. -/
  exhaustive : shape.Converts args ∨ ∃ i v, shape.FirstMismatch args i v

theorem call_of_run_error {name : String} {stamp : Nat} {failure : Failure}
    (h : shape.run stamp args = .error failure) :
    shape.call name stamp args = .error (failure.named name) := by
  rw [call, h]
  rfl

theorem followsProtocol (shape : Shape) (name : String) (stamp : Nat) (args : List Value) :
    shape.FollowsProtocol name stamp args where
  wrongCount h hfirst := call_of_run_error (run_of_refused h hfirst stamp)
  mismatch i v h hcount := call_of_run_error (run_of_firstMismatch h hcount stamp)
  applies hcount h := by
    refine ⟨shape.run stamp args, applies_run hcount h stamp, fun a ha => ?_,
      fun failure hfailure => ?_⟩
    · rw [call, ha]
      rfl
    · exact ⟨failure.named name, failure.attributed_named name, call_of_run_error hfailure⟩
  exhaustive := shape.converts_or_firstMismatch args

end Shape

/-- The call of a primitive ends with what its shape says: a value, or a failure that changes
nothing. -/
def Interpreter.EndsWith (i : Interpreter) (p : Primitive) (args : List Value) :
    Except Failure Action → Prop
  | .ok (.give v) => ∀ o i', i.AppliesTo (.object (.primitive p)) args o i' ↔
      o = .value v ∧ i' = i.mapStore Store.tick
  | .error failure =>
    ∀ o i', i.AppliesTo (.object (.primitive p)) args o i' ↔ o = failure.outcome ∧ i' = i
  | _ => ∃ arity f, p.shape = .raw arity f

/-- **The protocol of calls.**  For every shape, with any conversions and any function, and for all
arguments, a call counts the arguments, converts them and applies the function, or it ends with the
error of the first check that fails, under the name of the primitive.  So does every primitive when
it is called. -/
theorem calls_follow_protocol (args : List Value) :
    (∀ (shape : Shape) (name : String) (stamp : Nat), shape.FollowsProtocol name stamp args) ∧
      ∀ (p : Primitive) (i : Interpreter),
        i.EndsWith p args (p.shape.call p.name i.store.clock args) := by
  refine ⟨fun shape name stamp => shape.followsProtocol name stamp args, fun p i => ?_⟩
  unfold Shape.call
  cases hrun : p.shape.run i.store.clock args with
  | error e => exact fun o i' => Interpreter.appliesTo_of_error hrun
  | ok a =>
    cases a with
    | give v => exact fun o i' => Interpreter.appliesTo_of_give hrun
    | evaluate | call | print =>
      obtain ⟨v, hv⟩ | hraw := Shape.exists_give hrun
      · cases hv
      · exact hraw

/-- Of one symbol, `=` says that it is not a real number, and `<` that it is alone. -/
example :
    Primitive.numEq.shape.call "=" 0 [.symbol "a"] =
        .error (.error (Conversion.real.expectation.mismatch "=" 0 (.symbol "a"))) ∧
      Primitive.less.shape.call "<" 0 [.symbol "a"] =
        .error (.error (.argumentCount "<" (.atLeast 2) 1)) :=
  ⟨rfl, rfl⟩

end Scheme
