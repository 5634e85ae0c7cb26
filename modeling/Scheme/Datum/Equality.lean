import Scheme.Datum.Basic

/-!
# Equality of data

Two data are equal if they have the same structure and equal atoms; numbers must agree in exactness
and value.  Two pairs with the same label are equal without a look at their parts.

Two data are equivalent if they are equal atoms or the same object by their labels.

* `Datum.equalBy`: structural equality, given when labels and objects are the same;
* `Datum.eqvBy`: equivalence.
-/

namespace Scheme.Datum

variable {ι ξ : Type}

/-- Equality of data without parts, by content. -/
def sameAtom (sameObject : ξ → ξ → Bool) : Datum ι ξ → Datum ι ξ → Bool
  | .symbol s, .symbol t => s == t
  | .boolean a, .boolean b => a == b
  | .char c, .char d => c == d
  | .string s, .string t => s == t
  | .number n, .number m => n.same m
  | .nil, .nil => true
  | .object x, .object y => sameObject x y
  | _, _ => false

mutual

/-- Structural equality, with the same label taken as proof for pairs. -/
def equalBy (same : ι → ι → Bool) (sameObject : ξ → ξ → Bool) : Datum ι ξ → Datum ι ξ → Bool
  | .pair l a d, .pair l' a' d' =>
    same l l' || (equalBy same sameObject a a' && equalBy same sameObject d d')
  | .vector _ xs, .vector _ ys => equalItems same sameObject xs ys
  | .bytes _ xs, .bytes _ ys => xs == ys
  | x, y => sameAtom sameObject x y

/-- Structural equality of items, one by one. -/
def equalItems (same : ι → ι → Bool) (sameObject : ξ → ξ → Bool) :
    List (Datum ι ξ) → List (Datum ι ξ) → Bool
  | [], [] => true
  | x :: xs, y :: ys => equalBy same sameObject x y && equalItems same sameObject xs ys
  | _, _ => false

end

/-- Equivalence: equal atoms, or the same object. -/
def eqvBy (same : ι → ι → Bool) (sameObject : ξ → ξ → Bool) : Datum ι ξ → Datum ι ξ → Bool
  | .pair l .., .pair l' .. => same l l'
  | .vector l _, .vector l' _ => same l l'
  | .bytes l _, .bytes l' _ => same l l'
  | x, y => sameAtom sameObject x y

end Scheme.Datum
