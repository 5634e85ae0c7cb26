import Scheme.Number.Basic

/-!
# Data

A datum is an atom, a pair, a vector or a bytevector.  Pairs, vectors and bytevectors carry a label,
by which a run-time system tells one object from another; a text has no such labels.  A run-time
system also adds objects of its own.

* `Datum ι ξ`: data with labels from `ι` and further objects from `ξ`;
* `Sexp`: data as they are written, without labels and further objects;
* `Datum.isTrue`: every datum but `#f` counts as true.
-/

namespace Scheme

/-- A datum with labels from `ι` and run-time objects from `ξ`. -/
inductive Datum (ι ξ : Type) where
  | symbol (name : String)
  | boolean (b : Bool)
  | char (c : Char)
  | string (s : String)
  | number (n : Number)
  | nil
  | pair (label : ι) (car cdr : Datum ι ξ)
  | vector (label : ι) (items : List (Datum ι ξ))
  | bytes (label : ι) (data : List UInt8)
  | object (x : ξ)

/-- A datum as it is written. -/
abbrev Sexp := Datum Unit Empty

namespace Datum

variable {ι ξ : Type}

instance : Inhabited (Datum ι ξ) := ⟨.nil⟩

/-- The datum counts as true: it is anything but `#f`. -/
def isTrue : Datum ι ξ → Bool
  | .boolean b => b
  | _ => true

/-- The name of a symbol. -/
def symbol? : Datum ι ξ → Option String
  | .symbol s => some s
  | _ => none

/-- The datum is the empty list. -/
def isNil : Datum ι ξ → Bool
  | .nil => true
  | _ => false

@[simp] theorem isTrue_boolean (b : Bool) : (boolean b : Datum ι ξ).isTrue = b := rfl

end Datum

end Scheme
