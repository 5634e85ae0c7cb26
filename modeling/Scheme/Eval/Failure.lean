import Scheme.Datum.Walk
import Scheme.Eval.Error

/-!
# Failures

An operation fails with an error of evaluation, or with an error of the layers below, which is none,
or it breaks off because it asks for something that is not there.  A primitive turns the errors of
the layers below into errors of evaluation; nothing does so with an operation that breaks off.

* `Sentinel`, `Sentinel.attributed`: the errors of the layers below;
* `Panic`: why an operation breaks off;
* `Breach`: what an evaluation must not end with;
* `Failure`, `Failure.named`: how an operation fails, and how the primitive fails that performs it;
* `Checked`: accesses that break off outside the bounds of a list or at a value of another type.
-/

namespace Scheme

/-- An error of the layers below evaluation. -/
inductive Sentinel where
  | number (e : NumberError)
  /-- A proper list was required. -/
  | improperList
  /-- Any other one, by its text. -/
  | other (text : String)
  deriving DecidableEq

/-- The error of the layers below as an error of the named primitive. -/
def Sentinel.attributed (name : String) : Sentinel → EvalError
  | .number .divideByZero => { kind := .divideByZero, name := name }
  | .improperList => { kind := .notList, name := name }
  | .number e => { kind := .typeMismatch, name := name, detail := e.message }
  | .other text => { kind := .typeMismatch, name := name, detail := text }

/-- Why an operation breaks off. -/
inductive Panic where
  /-- An index is out of range. -/
  | index (i : Int) (length : Nat)
  /-- The bounds of a slice are out of range. -/
  | slice (first last : Int) (length : Nat)
  /-- A value is not of the named type. -/
  | assertion (type : String)
  /-- The number of a closure denotes nothing. -/
  | closure (id : Nat)
  deriving DecidableEq

/-- What an evaluation must not end with: an operation that breaks off, or an error of the layers
below that no primitive has turned into an error of evaluation. -/
inductive Breach where
  | sentinel (s : Sentinel)
  | panic (p : Panic)
  deriving DecidableEq

/-- How an operation fails. -/
inductive Failure where
  | error (e : EvalError)
  | breach (b : Breach)
  deriving DecidableEq

namespace Failure

/-- The failure of an operation on numbers. -/
def number (e : NumberError) : Failure := .breach (.sentinel (.number e))

/-- The failure of a walk that requires a proper list. -/
def improperList : Failure := .breach (.sentinel .improperList)

/-- An operation breaks off. -/
def panic (p : Panic) : Failure := .breach (.panic p)

/-- A proper list was required. -/
def notList (text : String) : Failure := .error (.notList text)

/-- A value of another type was required. -/
def typeMismatch (text : String) : Failure := .error (.typeMismatch text)

/-- The failure of the named primitive.  An error of evaluation keeps the name that it has, an error
of the layers below becomes one of evaluation, and what breaks off stays broken off. -/
def named (name : String) : Failure → Failure
  | .error e => .error (e.named name)
  | .breach (.sentinel s) => .error (s.attributed name)
  | .breach (.panic p) => .breach (.panic p)

end Failure

/-! ### Checked accesses -/

namespace Checked

variable {α : Type} {ι ξ : Type}

/-- The item with an index. -/
def item (items : List α) : (i : Int) → Except Failure α
  | .ofNat n =>
    match items[n]? with
    | some x => .ok x
    | none => .error (.panic (.index n items.length))
  | .negSucc n => .error (.panic (.index (.negSucc n) items.length))

/-- The items from one index up to another.  The end lies within the list. -/
def slice (items : List α) (first last : Int) : Except Failure (List α) :=
  if 0 ≤ first ∧ first ≤ last ∧ last ≤ items.length then
    .ok ((items.take last.toNat).drop first.toNat)
  else .error (.panic (.slice first last items.length))

/-- The items from an index on. -/
def sliceFrom (items : List α) (first : Int) : Except Failure (List α) :=
  slice items first items.length

/-- The name of a symbol. -/
def symbol (d : Datum ι ξ) : Except Failure String :=
  match d.symbol? with
  | some name => .ok name
  | none => .error (.panic (.assertion "symbol"))

/-- The elements of a proper list. -/
def elements (d : Datum ι ξ) : Except Failure (List (Datum ι ξ)) :=
  match d.elements? with
  | some items => .ok items
  | none => .error .improperList

/-! #### Accesses that succeed -/

theorem item_of_getElem? {items : List α} {n : Nat} {x : α} (h : items[n]? = some x) :
    item items n = .ok x := by
  show (match items[n]? with | some x => _ | none => _) = _
  rw [h]

theorem slice_of_le {items : List α} {first last : Nat} (h : first ≤ last)
    (hlast : last ≤ items.length) :
    slice items first last = .ok ((items.take last).drop first) :=
  if_pos ⟨Int.natCast_nonneg first, Int.ofNat_le.2 h, Int.ofNat_le.2 hlast⟩

theorem sliceFrom_of_le {items : List α} {first : Nat} (h : first ≤ items.length) :
    sliceFrom items first = .ok (items.drop first) := by
  rw [sliceFrom, slice_of_le h (Nat.le_refl _), List.take_length]

@[simp] theorem sliceFrom_one (x : α) (items : List α) : sliceFrom (x :: items) 1 = .ok items :=
  @sliceFrom_of_le _ (x :: items) 1 (Nat.succ_pos _)

@[simp] theorem sliceFrom_two (x y : α) (items : List α) :
    sliceFrom (x :: y :: items) 2 = .ok items :=
  @sliceFrom_of_le _ (x :: y :: items) 2 (Nat.succ_le_succ (Nat.succ_pos _))

theorem elements_of_some {d : Datum ι ξ} {items : List (Datum ι ξ)} (h : d.elements? = some items) :
    elements d = .ok items := by
  rw [elements, h]

theorem elements_of_none {d : Datum ι ξ} (h : d.elements? = none) :
    elements d = .error .improperList := by
  rw [elements, h]

end Checked

end Scheme
