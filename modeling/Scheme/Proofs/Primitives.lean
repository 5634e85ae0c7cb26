import Mathlib
import Scheme.Eval.Prelude
import Scheme.Proofs.SoundStore

/-!
# What primitives give back

A primitive that is called with sound values gives sound values back, or it fails with an error of
one of the known kinds, or with an error of the layers below, which it turns into one of these.  It
never breaks off: the number of arguments is checked before they are accessed by their places, and
an index before the item.

* `Failure.IsSafe`: the failures that become errors of known kinds, `Failure.IsSafe.named`;
* `Succeeds`: the result of an operation that does not break off;
* `Checked.succeeds_item`, `Checked.succeeds_slice`: accesses within bounds;
* `Conversion.Keeps`: conversions keep values sound;
* `Shape.Sound`: what holds of every call of a shape, with one lemma for each shape;
* `Primitive.sound_shape`: every primitive has a sound shape.
-/

namespace Scheme

/-! ### Failures -/

/-- The error has one of the kinds that evaluation uses. -/
def EvalError.IsKnown (e : EvalError) : Prop := e.kind ∈ ErrorKind.all

theorem EvalError.IsKnown.named {e : EvalError} (h : e.IsKnown) (name : String) :
    (e.named name).IsKnown := by
  unfold EvalError.named
  split_ifs
  · exact h
  · exact h

/-- The failure is an error of a known kind, or an error of the layers below: nothing has broken
off. -/
def Failure.IsSafe : Failure → Prop
  | .error e => e.IsKnown
  | .breach (.sentinel _) => True
  | .breach (.panic _) => False

theorem Sentinel.isKnown_attributed (s : Sentinel) (name : String) :
    (s.attributed name).IsKnown := by
  unfold EvalError.IsKnown Sentinel.attributed
  split <;> simp [ErrorKind.all]

/-- **A primitive turns its failures into errors of known kinds.** -/
theorem Failure.IsSafe.named {f : Failure} (h : f.IsSafe) (name : String) :
    ∃ e : EvalError, f.named name = .error e ∧ e.IsKnown := by
  match f, h with
  | .error e, h => exact ⟨_, rfl, EvalError.IsKnown.named h name⟩
  | .breach (.sentinel s), _ => exact ⟨_, rfl, s.isKnown_attributed name⟩

/-- The result satisfies `P`, or it is a failure in which nothing has broken off. -/
def Succeeds {α : Type} (P : α → Prop) : Except Failure α → Prop
  | .ok a => P a
  | .error f => f.IsSafe

theorem Succeeds.bind {α β : Type} {P : α → Prop} {Q : β → Prop} {x : Except Failure α}
    {f : α → Except Failure β} (hx : Succeeds P x) (hf : ∀ a, P a → Succeeds Q (f a)) :
    Succeeds Q (x >>= f) := by
  cases x with
  | ok a => exact hf a hx
  | error f => exact hx

theorem isSafe_typeMismatch (text : String) : (Failure.typeMismatch text).IsSafe := by
  show ErrorKind.typeMismatch ∈ ErrorKind.all
  decide

theorem isKnown_notList (text : String) : (EvalError.notList text).IsKnown := by
  show ErrorKind.notList ∈ ErrorKind.all
  decide

theorem isSafe_notList (text : String) : (Failure.notList text).IsSafe := isKnown_notList text

/-! ### Accesses -/

namespace Checked

variable {α : Type} {P : α → Prop} {items : List α}

/-- An index within the bounds finds an item. -/
theorem succeeds_item (hP : ∀ x ∈ items, P x) {i : Int} (h : 0 ≤ i ∧ i < items.length) :
    Succeeds P (item items i) := by
  obtain ⟨n, rfl⟩ := Int.eq_ofNat_of_zero_le h.1
  have hlt : n < items.length := Int.ofNat_lt.1 h.2
  rw [item_of_getElem? (List.getElem?_eq_getElem hlt)]
  exact hP _ (List.getElem_mem hlt)

/-- Bounds within the bounds of a list find a part of it. -/
theorem succeeds_slice (hP : ∀ x ∈ items, P x) {first last : Int}
    (h : 0 ≤ first ∧ first ≤ last ∧ last ≤ items.length) :
    Succeeds (fun xs => ∀ x ∈ xs, P x) (slice items first last) := by
  rw [slice, if_pos h]
  exact fun x hx => hP x (List.mem_of_mem_take (List.mem_of_mem_drop hx))

theorem succeeds_sliceFrom (hP : ∀ x ∈ items, P x) {first : Int}
    (h : 0 ≤ first ∧ first ≤ items.length) :
    Succeeds (fun xs => ∀ x ∈ xs, P x) (sliceFrom items first) :=
  succeeds_slice hP ⟨h.1, h.2, le_rfl⟩

/-- The elements of a sound list are sound. -/
theorem succeeds_elements {n : Nat} {v : Value} (h : v.Sound n) :
    Succeeds (fun items => ∀ x ∈ items, Value.Sound n x) (elements v) := by
  cases hitems : v.elements? with
  | none =>
    rw [elements_of_none hitems]
    trivial
  | some items =>
    rw [elements_of_some hitems]
    exact Value.sound_elements h hitems

end Checked

/-! ### Conversions -/

namespace Conversion

/-- What is taken out of a sound value and put back is sound. -/
def Keeps {α : Type} (n : Nat) (c : Conversion α) : Prop :=
  ∀ v x, v.Sound n → c.unwrap v = some x → (c.wrap x).Sound n

variable {n : Nat} {α : Type} {c : Conversion α}

theorem keeps_any : any.Keeps n := by
  intro v x hv hx
  cases hx
  exact hv

theorem keeps_number : number.Keeps n := fun _ _ _ _ => Value.sound_number _

theorem keeps_real : real.Keeps n := fun _ _ _ _ => Value.sound_number _

theorem keeps_int : int.Keeps n := fun _ _ _ _ => Value.sound_number _

theorem keeps_symbol : symbol.Keeps n := fun _ _ _ _ => Value.sound_symbol _

theorem keeps_string : string.Keeps n := fun _ _ _ _ => Value.sound_string _

theorem keeps_bytes : bytes.Keeps n := fun _ _ _ _ => Value.sound_bytes _ _

theorem keeps_pair : pair.Keeps n := by
  intro v x hv hx
  cases v with
  | pair l a d =>
    cases hx
    exact hv
  | _ => cases hx

theorem keeps_vector : vector.Keeps n := by
  intro v x hv hx
  cases v with
  | vector l items =>
    cases hx
    exact hv
  | _ => cases hx

theorem succeeds_convert (h : c.Keeps n) {v : Value} (hv : v.Sound n) (place : Nat) :
    Succeeds (fun x => (c.wrap x).Sound n) (c.convert place v) := by
  unfold convert
  cases hx : c.unwrap v with
  | some x => exact h v x hv hx
  | none => exact isSafe_typeMismatch _

theorem succeeds_convertFrom (h : c.Keeps n) {args : List Value} (hargs : ∀ v ∈ args, v.Sound n)
    (place : Nat) : Succeeds (fun xs => xs.length = args.length ∧ ∀ x ∈ xs, (c.wrap x).Sound n)
      (c.convertFrom place args) := by
  induction args generalizing place with
  | nil => exact ⟨rfl, List.forall_mem_nil _⟩
  | cons v args ih =>
    rw [List.forall_mem_cons] at hargs
    have hv := succeeds_convert h hargs.1 place
    have hrest := ih hargs.2 (place + 1)
    rw [convertFrom]
    cases hx : c.convert place v with
    | error e =>
      rw [hx] at hv
      exact hv
    | ok x =>
      rw [hx] at hv
      cases hxs : c.convertFrom (place + 1) args with
      | error e =>
        rw [hxs] at hrest
        exact hrest
      | ok xs =>
        rw [hxs] at hrest
        exact ⟨congrArg (· + 1) hrest.1, List.forall_mem_cons.2 ⟨hv, hrest.2⟩⟩

theorem succeeds_convertAll (h : c.Keeps n) {args : List Value} (hargs : ∀ v ∈ args, v.Sound n) :
    Succeeds (fun xs => xs.length = args.length ∧ ∀ x ∈ xs, (c.wrap x).Sound n)
      (c.convertAll args) :=
  succeeds_convertFrom h hargs 1

end Conversion

/-! ### Shapes -/

/-- What a call asks for concerns sound values only. -/
def Action.Sound (n : Nat) : Action → Prop
  | .give v => v.Sound n
  | .evaluate x => x.Sound n
  | .call f args => f.Sound n ∧ ∀ v ∈ args, v.Sound n
  | .print _ => True

namespace Shape

/-- A call with sound values asks for sound values, or it fails without breaking off. -/
def Sound (n : Nat) (shape : Shape) : Prop :=
  ∀ stamp args, (∀ v ∈ args, Value.Sound n v) → Succeeds (Action.Sound n) (shape.run stamp args)

variable {n : Nat} {α β γ : Type}

theorem succeeds_checkArity (arity : Arity) (args : List Value) :
    Succeeds (fun _ => arity.accepts args.length = true) (checkArity arity args) := by
  unfold checkArity
  split_ifs with hcount
  · exact hcount
  · show ErrorKind.argumentCount ∈ ErrorKind.all
    decide

theorem sound_many {arg : Conversion α} {f : Nat → List α → α} (harg : arg.Keeps n)
    (hf : ∀ stamp xs, (∀ x ∈ xs, (arg.wrap x).Sound n) → (arg.wrap (f stamp xs)).Sound n) :
    (many arg f).Sound n := by
  intro stamp args hargs
  exact (Conversion.succeeds_convertAll harg hargs).bind fun xs hxs => hf stamp xs hxs.2

/-- As many values are converted as there are arguments, so that the first is found. -/
theorem sound_oneOrMore {arg : Conversion α} {f : α → List α → Except Failure α}
    (harg : arg.Keeps n) (hf : ∀ x rest, Succeeds (fun y => (arg.wrap y).Sound n) (f x rest)) :
    (oneOrMore arg f).Sound n := by
  intro stamp args hargs
  refine (succeeds_checkArity (.atLeast 1) args).bind fun _ hcount => ?_
  have hlen := (Arity.accepts_atLeast 1 _).1 hcount
  refine (Conversion.succeeds_convertAll harg hargs).bind fun xs hxs => ?_
  refine (Checked.succeeds_item hxs.2 ⟨le_rfl, by omega⟩).bind fun x _ => ?_
  refine (Checked.succeeds_sliceFrom hxs.2 ⟨Int.one_nonneg, by omega⟩).bind fun rest _ => ?_
  exact (hf x rest).bind fun y hy => hy

/-- Two converted values are found. -/
theorem succeeds_applyTwoOrMore {result : Conversion β} {f : α → α → List α → β} {xs : List α}
    (hlen : 2 ≤ xs.length) (hf : ∀ x y rest, (result.wrap (f x y rest)).Sound n) :
    Succeeds (Action.Sound n) (applyTwoOrMore result f xs) := by
  have hall : ∀ x ∈ xs, True := fun _ _ => trivial
  refine (Checked.succeeds_item hall ⟨le_rfl, by omega⟩).bind fun x _ => ?_
  refine (Checked.succeeds_item hall ⟨Int.one_nonneg, by omega⟩).bind fun y _ => ?_
  refine (Checked.succeeds_sliceFrom hall ⟨by decide, by omega⟩).bind fun rest _ => ?_
  exact hf x y rest

theorem sound_twoOrMoreLate {arg : Conversion α} {result : Conversion β} {f : α → α → List α → β}
    (harg : arg.Keeps n) (hf : ∀ x y rest, (result.wrap (f x y rest)).Sound n) :
    (twoOrMoreLate arg result f).Sound n := by
  intro stamp args hargs
  refine (Conversion.succeeds_convertAll harg hargs).bind fun xs hxs => ?_
  refine (succeeds_checkArity (.atLeast 2) args).bind fun _ hcount => ?_
  have hlen := (Arity.accepts_atLeast 2 _).1 hcount
  exact succeeds_applyTwoOrMore (hxs.1 ▸ hlen) hf

theorem sound_twoOrMore {arg : Conversion α} {result : Conversion β} {f : α → α → List α → β}
    (harg : arg.Keeps n) (hf : ∀ x y rest, (result.wrap (f x y rest)).Sound n) :
    (twoOrMore arg result f).Sound n := by
  intro stamp args hargs
  refine (succeeds_checkArity (.atLeast 2) args).bind fun _ hcount => ?_
  have hlen := (Arity.accepts_atLeast 2 _).1 hcount
  refine (Conversion.succeeds_convertAll harg hargs).bind fun xs hxs => ?_
  exact succeeds_applyTwoOrMore (hxs.1 ▸ hlen) hf

theorem sound_one {arg : Conversion α} {result : Conversion β} {f : α → Except Failure β}
    (harg : arg.Keeps n)
    (hf : ∀ x, (arg.wrap x).Sound n → Succeeds (fun y => (result.wrap y).Sound n) (f x)) :
    (one arg result f).Sound n := by
  intro stamp args hargs
  refine (succeeds_checkArity (.exactly 1) args).bind fun _ hcount => ?_
  have hlen := (Arity.accepts_exactly 1 _).1 hcount
  refine (Checked.succeeds_item hargs ⟨le_rfl, by omega⟩).bind fun v hv => ?_
  refine (Conversion.succeeds_convert harg hv 1).bind fun x hx => ?_
  exact (hf x hx).bind fun y hy => hy

theorem sound_two {first : Conversion α} {second : Conversion β} {result : Conversion γ}
    {f : Nat → α → β → Except Failure γ} (hfirst : first.Keeps n) (hsecond : second.Keeps n)
    (hf : ∀ stamp x y, (first.wrap x).Sound n → (second.wrap y).Sound n →
      Succeeds (fun z => (result.wrap z).Sound n) (f stamp x y)) :
        (two first second result f).Sound n := by
  intro stamp args hargs
  refine (succeeds_checkArity (.exactly 2) args).bind fun _ hcount => ?_
  have hlen := (Arity.accepts_exactly 2 _).1 hcount
  refine (Checked.succeeds_item hargs ⟨le_rfl, by omega⟩).bind fun v hv => ?_
  refine (Conversion.succeeds_convert hfirst hv 1).bind fun x hx => ?_
  refine (Checked.succeeds_item hargs ⟨Int.one_nonneg, by omega⟩).bind fun w hw => ?_
  refine (Conversion.succeeds_convert hsecond hw 2).bind fun y hy => ?_
  exact (hf stamp x y hx hy).bind fun z hz => hz

theorem sound_raw {arity : Arity} {f : Nat → List Value → Except Failure Action}
    (hf : ∀ stamp args, arity.accepts args.length = true → (∀ v ∈ args, Value.Sound n v) →
      Succeeds (Action.Sound n) (f stamp args)) : (raw arity f).Sound n := by
  intro stamp args hargs
  exact (succeeds_checkArity arity args).bind fun _ hcount => hf stamp args hcount hargs

end Shape

/-! ### The primitives -/

namespace Prelude

variable {n : Nat}

theorem succeeds_lift {α : Type} {P : α → Prop} (x : Except NumberError α) (hP : ∀ a, P a) :
    Succeeds P (lift x) := by
  cases x with
  | ok a => exact hP a
  | error e => trivial

theorem sound_test (p : Value → Bool) : (test p).Sound n :=
  Shape.sound_one Conversion.keeps_any fun _ _ => Value.sound_boolean _

theorem sound_numberTest (p : Number → Bool) : (numberTest p).Sound n :=
  Shape.sound_one Conversion.keeps_number fun _ _ => Value.sound_boolean _

theorem sound_realTest (p : RealNumber → Bool) : (realTest p).Sound n :=
  Shape.sound_one Conversion.keeps_real fun _ _ => Value.sound_boolean _

theorem sound_numeric (f : Number → Number) : (numeric f).Sound n :=
  Shape.sound_one Conversion.keeps_number fun _ _ => Value.sound_number _

theorem sound_numericPartial (f : Number → Except NumberError Number) :
    (numericPartial f).Sound n :=
  Shape.sound_one Conversion.keeps_number fun x _ => succeeds_lift (f x) fun _ =>
    Value.sound_number _

theorem sound_realUnary (f : RealNumber → RealNumber) : (realUnary f).Sound n :=
  Shape.sound_one Conversion.keeps_real fun _ _ => Value.sound_number _

theorem sound_realPartial (f : RealNumber → Except NumberError RealNumber) :
    (realPartial f).Sound n :=
  Shape.sound_one Conversion.keeps_real fun x _ => succeeds_lift (f x) fun _ => Value.sound_number _

theorem sound_realBinary (f : RealNumber → RealNumber → Except NumberError RealNumber) :
    (realBinary f).Sound n :=
  Shape.sound_two Conversion.keeps_real Conversion.keeps_real fun _ x y _ _ =>
    succeeds_lift (f x y) fun _ => Value.sound_number _

theorem sound_comparison (rel : RealNumber → RealNumber → Bool) : (comparison rel).Sound n :=
  Shape.sound_twoOrMore Conversion.keeps_real fun _ _ _ => Value.sound_boolean _

theorem sound_extremum (pick : RealNumber → RealNumber → RealNumber) : (extremum pick).Sound n :=
  Shape.sound_oneOrMore Conversion.keeps_real fun _ _ => Value.sound_number _

theorem sound_relation (rel : Value → Value → Bool) : (relation rel).Sound n :=
  Shape.sound_two Conversion.keeps_any Conversion.keeps_any fun _ _ _ _ _ => Value.sound_boolean _

/-- One or two numbers are all that the function is asked for. -/
theorem sound_oneOrTwo {f : List Number → Except Failure Number}
    (hf : ∀ ns : List Number, 1 ≤ ns.length → ns.length ≤ 2 → Succeeds (fun _ => True) (f ns)) :
    (oneOrTwo f).Sound n := by
  refine Shape.sound_raw fun stamp args hcount hargs => ?_
  refine (Conversion.succeeds_convertAll Conversion.keeps_number hargs).bind fun ns hns => ?_
  have hlen : 1 ≤ ns.length ∧ ns.length ≤ 2 := by
    simpa [Arity.accepts, hns.1] using hcount
  exact (hf ns hlen.1 hlen.2).bind fun _ _ => Value.sound_number _

theorem succeeds_logarithm {ns : List Number} (h : 1 ≤ ns.length) :
    Succeeds (fun _ => True) (logarithm ns) := by
  have hall : ∀ x ∈ ns, True := fun _ _ => trivial
  unfold logarithm
  split_ifs with htwo
  · refine (Checked.succeeds_item hall ⟨Int.one_nonneg, by omega⟩).bind fun base _ => ?_
    refine (Checked.succeeds_item hall ⟨le_rfl, by omega⟩).bind fun x _ => ?_
    split <;> trivial
  · exact (Checked.succeeds_item hall ⟨le_rfl, by omega⟩).bind fun x _ => trivial

theorem succeeds_arctangent {ns : List Number} (h : 1 ≤ ns.length) :
    Succeeds (fun _ => True) (arctangent ns) := by
  have hall : ∀ x ∈ ns, True := fun _ _ => trivial
  unfold arctangent
  split_ifs with hone
  · exact (Checked.succeeds_item hall ⟨le_rfl, by omega⟩).bind fun x _ => trivial
  · refine (Checked.succeeds_item hall ⟨le_rfl, by omega⟩).bind fun y _ => ?_
    refine (Checked.succeeds_item hall ⟨Int.one_nonneg, by omega⟩).bind fun x _ => ?_
    exact succeeds_lift _ fun _ => trivial

/-- The test of the index comes before the access. -/
theorem succeeds_itemAt {α : Type} {P : α → Prop} {items : List α} (h : ∀ x ∈ items, P x)
    (i : Int) :
    Succeeds P (itemAt items i) := by
  unfold itemAt
  split_ifs with houtside
  · exact isSafe_typeMismatch _
  · rw [not_or, not_lt, not_le] at houtside
    exact Checked.succeeds_item h houtside

theorem succeeds_append {v tail : Value} (hv : v.Sound n) (htail : tail.Sound n)
    (stamp index : Nat) :
    Succeeds (Value.Sound n) (append stamp index v tail) :=
  (Checked.succeeds_elements hv).bind fun _ hitems => Value.sound_listFrom hitems htail

theorem succeeds_appendFrom {args : List Value} (h : ∀ v ∈ args, v.Sound n) {last : Value}
    (hlast : last.Sound n) (stamp index : Nat) :
    Succeeds (Value.Sound n) (appendFrom stamp index args last) := by
  induction args generalizing index with
  | nil => exact hlast
  | cons v args ih =>
    rw [List.forall_mem_cons] at h
    refine (ih h.2 _).bind fun result hresult => ?_
    have happend := succeeds_append h.1 hresult stamp index
    cases hjoined : append stamp index v result with
    | ok joined =>
      rw [hjoined] at happend
      exact happend
    | error f => exact isSafe_notList _

theorem succeeds_appendLists {args : List Value} (h : ∀ v ∈ args, v.Sound n) (stamp : Nat) :
    Succeeds (Value.Sound n) (appendLists stamp args) := by
  unfold appendLists
  split_ifs with hempty
  · exact Value.sound_nil
  · have hpos : 0 < args.length := List.length_pos_iff.2 (by simpa using hempty)
    refine (Checked.succeeds_item h ⟨by omega, by omega⟩).bind fun last hlast => ?_
    refine (Checked.succeeds_slice h ⟨le_rfl, by omega, by omega⟩).bind fun before hbefore => ?_
    exact succeeds_appendFrom hbefore hlast stamp 0

theorem succeeds_listLength {P : Int → Prop} (v : Value) (hP : ∀ i, P i) :
    Succeeds P (listLength v) := by
  unfold listLength
  cases Checked.elements v with
  | error f => exact isSafe_notList _
  | ok items => exact hP _

/-- There are two arguments at least, so that the first, the last and those between are found. -/
theorem succeeds_applyArguments {args : List Value} (h : ∀ v ∈ args, v.Sound n)
    (hlen : 2 ≤ args.length) :
    Succeeds (Action.Sound n) (applyArguments args) := by
  refine (Checked.succeeds_item h ⟨by omega, by omega⟩).bind fun last hlast => ?_
  have helements := Checked.succeeds_elements hlast
  cases hitems : Checked.elements last with
  | error f => exact isSafe_notList _
  | ok items =>
    rw [hitems] at helements
    refine (Checked.succeeds_slice h ⟨Int.one_nonneg, by omega, by omega⟩).bind
      fun between hbetween => ?_
    refine (Checked.succeeds_item h ⟨le_rfl, by omega⟩).bind fun f hf => ?_
    exact ⟨hf, List.forall_mem_append.2 ⟨hbetween, helements⟩⟩

end Prelude

open Prelude Conversion in
/-- **Every primitive gives sound values back**, and it never breaks off. -/
theorem Primitive.sound_shape (p : Primitive) (n : Nat) : p.shape.Sound n := by
  cases p with
  | add | mul => exact Shape.sound_many keeps_number fun _ _ _ => Value.sound_number _
  | sub => exact Shape.sound_oneOrMore keeps_number fun _ _ => Value.sound_number _
  | div =>
    exact Shape.sound_oneOrMore keeps_number fun x rest =>
      succeeds_lift (quotientOf x rest) fun _ => Value.sound_number _
  | numEq => exact Shape.sound_twoOrMoreLate keeps_real fun _ _ _ => Value.sound_boolean _
  | less | greater | lessEq | greaterEq => exact sound_comparison _
  | isNumber | isComplex | isReal | isRational | isInteger => exact sound_test _
  | isExact | isInexact | isZero => exact sound_numberTest _
  | isPositive | isNegative => exact sound_realTest _
  | exp | sqrt | sin | cos | tan | asin | acos | sinh | cosh | tanh => exact sound_numeric _
  | inexact | exactToInexact | magnitude | angle | realPart | imagPart => exact sound_numeric _
  | log => exact sound_oneOrTwo fun _ hlen _ => succeeds_logarithm hlen
  | atan => exact sound_oneOrTwo fun _ hlen _ => succeeds_arctangent hlen
  | expt =>
    exact Shape.sound_two keeps_number keeps_number fun _ x y _ _ =>
      succeeds_lift (x.pow y) fun _ => Value.sound_number _
  | exact | inexactToExact => exact sound_numericPartial _
  | floor | ceiling | round | truncate | abs => exact sound_realUnary _
  | min | max => exact sound_extremum _
  | quotient | remainder | modulo => exact sound_realBinary _
  | numerator | denominator => exact sound_realPartial _
  | makeRectangular | makePolar =>
    exact Shape.sound_two keeps_real keeps_real fun _ _ _ _ _ => Value.sound_number _
  | numberToString => exact Shape.sound_one keeps_number fun _ _ => Value.sound_string _
  | car => exact Shape.sound_one keeps_pair fun _ hp => (Value.sound_pair.1 hp).1
  | cdr => exact Shape.sound_one keeps_pair fun _ hp => (Value.sound_pair.1 hp).2
  | cons => exact Shape.sound_two keeps_any keeps_any fun _ _ _ ha hd => Value.sound_pair.2 ⟨ha, hd⟩
  | list => exact Shape.sound_many keeps_any fun _ _ h => Value.sound_list h Value.sound_nil
  | length =>
    exact Shape.sound_one keeps_any fun v _ => succeeds_listLength v fun _ => Value.sound_number _
  | append =>
    exact Shape.sound_raw fun stamp args _ hargs =>
      (succeeds_appendLists hargs stamp).bind fun _ hv => hv
  | isEqv | isEq | isEqual => exact sound_relation _
  | not | isPair | isNull | isSymbol | isBoolean | isChar | isString => exact sound_test _
  | isVector | isBytevector | isProcedure => exact sound_test _
  | vector => exact Shape.sound_many keeps_any fun _ _ h => Value.sound_vector.2 h
  | vectorLength => exact Shape.sound_one keeps_vector fun _ _ => Value.sound_number _
  | vectorRef =>
    exact Shape.sound_two keeps_vector keeps_int fun _ _ i hv _ =>
      succeeds_itemAt (Value.sound_vector.1 hv) i
  | bytevectorLength => exact Shape.sound_one keeps_bytes fun _ _ => Value.sound_number _
  | bytevectorRef =>
    refine Shape.sound_two keeps_bytes keeps_int fun _ b i _ _ => ?_
    have hitem : Succeeds (fun _ => True) (itemAt b.data i) :=
      succeeds_itemAt (fun _ _ => trivial) i
    exact hitem.bind fun _ _ => Value.sound_number _
  | stringLength => exact Shape.sound_one keeps_string fun _ _ => Value.sound_number _
  | symbolToString => exact Shape.sound_one keeps_symbol fun _ _ => Value.sound_string _
  | stringToSymbol => exact Shape.sound_one keeps_string fun _ _ => Value.sound_symbol _
  | eval =>
    refine Shape.sound_raw fun stamp args hcount hargs => ?_
    have hlen := (Arity.accepts_exactly 1 _).1 hcount
    exact (Checked.succeeds_item hargs ⟨le_rfl, by omega⟩).bind fun x hx => hx
  | apply =>
    exact Shape.sound_raw fun stamp args hcount hargs =>
      succeeds_applyArguments hargs ((Arity.accepts_atLeast 2 _).1 hcount)
  | display =>
    refine Shape.sound_raw fun stamp args hcount hargs => ?_
    have hlen := (Arity.accepts_exactly 1 _).1 hcount
    exact (Checked.succeeds_item hargs ⟨le_rfl, by omega⟩).bind fun v _ => trivial
  | newline => exact Shape.sound_raw fun _ _ _ _ => trivial

end Scheme
