import Scheme.Datum.Basic

/-!
# Lists

A chain of pairs is a proper list if it ends in `()`, and an improper one otherwise; its elements
are the first components of the pairs.

* `Datum.spine`: the elements and the end of a chain;
* `Datum.tail?`: the end, if it is not `()`;
* `Datum.elements?`: the elements of a proper list;
* `Walk`: one step along a chain at a time;
* `Sexp.ofList`: the chain with given elements and a given end.
-/

namespace Scheme

namespace Datum

variable {ι ξ : Type}

/-- The elements of a chain of pairs and what it ends in. -/
def spine : Datum ι ξ → List (Datum ι ξ) × Datum ι ξ
  | .pair _ car cdr => (car :: cdr.spine.1, cdr.spine.2)
  | d => ([], d)

/-- The elements of a chain of pairs. -/
def elements (d : Datum ι ξ) : List (Datum ι ξ) := d.spine.1

/-- What a chain of pairs ends in, if that is not `()`. -/
def tail? (d : Datum ι ξ) : Option (Datum ι ξ) :=
  if d.spine.2.isNil then none else some d.spine.2

/-- The chain ends in `()`. -/
def isProper (d : Datum ι ξ) : Bool := d.spine.2.isNil

/-- The elements of a proper list. -/
def elements? (d : Datum ι ξ) : Option (List (Datum ι ξ)) :=
  let (items, tail) := d.spine
  if tail.isNil then some items else none

/-- The number of pairs of a chain. -/
def length (d : Datum ι ξ) : Nat := d.elements.length

@[simp] theorem spine_pair (l : ι) (a d : Datum ι ξ) :
    (pair l a d).spine = (a :: d.spine.1, d.spine.2) := rfl

@[simp] theorem spine_nil : (nil : Datum ι ξ).spine = ([], nil) := rfl

end Datum

/-! ### Walking along a list -/

/-- A walk along a chain of pairs: what is left of it, if the walk has not ended, the element met
last, and whether the walk ended at something other than `()`. -/
structure Walk (ι ξ : Type) where
  rest : Option (Datum ι ξ)
  current : Option (Datum ι ξ)
  improper : Bool

namespace Walk

variable {ι ξ : Type}

/-- The walk before its first step. -/
def start (d : Datum ι ξ) : Walk ι ξ := ⟨some d, none, false⟩

/-- Take a step, and tell whether there was an element. -/
def next (w : Walk ι ξ) : Bool × Walk ι ξ :=
  match w.rest with
  | none => (false, w)
  | some (.pair _ car cdr) => (true, { w with rest := some cdr, current := some car })
  | some .nil => (false, { w with rest := none })
  | some _ => (false, { w with rest := none, improper := true })

/-- The walk after `k` steps. -/
def after (w : Walk ι ξ) : Nat → Walk ι ξ
  | 0 => w
  | k + 1 => (w.next.2).after k

end Walk

/-! ### Making written lists -/

namespace Sexp

/-- The chain with the given elements and end. -/
def ofList (items : List Sexp) (tail : Sexp) : Sexp :=
  items.foldr (fun car cdr => .pair () car cdr) tail

@[simp] theorem ofList_nil (tail : Sexp) : ofList [] tail = tail := rfl

@[simp] theorem ofList_cons (d : Sexp) (items : List Sexp) (tail : Sexp) :
    ofList (d :: items) tail = .pair () d (ofList items tail) := rfl

/-- The elements of a chain are those it was made of, before those of its end. -/
theorem spine_ofList (items : List Sexp) (tail : Sexp) :
    (ofList items tail).spine = (items ++ tail.spine.1, tail.spine.2) := by
  induction items with
  | nil => rfl
  | cons d items ih => rw [ofList_cons, Datum.spine_pair, ih]; rfl

end Sexp

end Scheme
