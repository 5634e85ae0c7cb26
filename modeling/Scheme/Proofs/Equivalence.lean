import Mathlib
import Scheme.Proofs.Splicing

/-!
# Equivalence and equality

Equivalent values are equal atoms or one object.  Equality takes one pair for equal to itself
without a look at its parts, but it compares the items of one vector with themselves, and a NaN is
not equal to itself, nor is an object that cannot be compared.  So equivalent values are equal but
for vectors that show such an atom: as an item, or as an item of an item, and so on, where an atom
behind a pair is not seen.

* `Datum.showsUnequal`: an atom that equality comes upon and that is not equal to itself;
* `Datum.equalBy_self`: which data are equal to themselves;
* `Value.OneObject`: values with the same label are one object;
* `Value.equal_iff_of_eqv`: the main result.
-/

namespace Scheme

/-! ### Equal to themselves -/

namespace Number

/-- A number is the same as itself if and only if it has no NaN as a part. -/
theorem same_self_eq (n : Number) : n.same n = n.isNaNFree := by
  cases n with
  | exact z => exact same_self rfl
  | inexact z => rw [same, isNaNFree, Binary64.beq_self_eq, Binary64.beq_self_eq]

end Number

namespace Datum

variable {ι ξ : Type} {same : ι → ι → Bool} {sameObject : ξ → ξ → Bool}

mutual

/-- A number with a NaN as a part, or an object that is not the same as itself, is the datum or
stands inside it in vectors only. -/
def showsUnequal (sameObject : ξ → ξ → Bool) : Datum ι ξ → Bool
  | .number n => !n.isNaNFree
  | .object x => !sameObject x x
  | .vector _ items => showUnequal sameObject items
  | _ => false

/-- One of the data shows such a number or object. -/
def showUnequal (sameObject : ξ → ξ → Bool) : List (Datum ι ξ) → Bool
  | [] => false
  | x :: xs => showsUnequal sameObject x || showUnequal sameObject xs

end

theorem showUnequal_eq_any (items : List (Datum ι ξ)) :
    showUnequal sameObject items = items.any (showsUnequal sameObject) := by
  induction items with
  | nil => rw [showUnequal, List.any_nil]
  | cons x xs ih => rw [showUnequal, ih, List.any_cons]

mutual

/-- **A datum is equal to itself** if and only if it shows nothing that is not. -/
theorem equalBy_self (hsame : ∀ l, same l l = true) :
    (d : Datum ι ξ) → equalBy same sameObject d d = !d.showsUnequal sameObject
  | .pair l a d => by
    rw [equalBy, hsame, Bool.true_or]
    rfl
  | .vector _ items => by rw [equalBy, equalItems_self hsame items, showsUnequal]
  | .number n => (Number.same_self_eq n).trans (Bool.not_not _).symm
  | .bytes _ data => beq_self_eq_true data
  | .symbol s => beq_self_eq_true s
  | .boolean b => beq_self_eq_true b
  | .char c => beq_self_eq_true c
  | .string s => beq_self_eq_true s
  | .nil => rfl
  | .object _ => (Bool.not_not _).symm

theorem equalItems_self (hsame : ∀ l, same l l = true) :
    (items : List (Datum ι ξ)) →
      equalItems same sameObject items items = !showUnequal sameObject items
  | [] => by rw [equalItems, showUnequal, Bool.not_false]
  | x :: xs => by
    rw [equalItems, equalBy_self hsame x, equalItems_self hsame xs, showUnequal, Bool.not_or]

end

/-- The label of a pair, vector or bytevector. -/
def label? : Datum ι ξ → Option ι
  | .pair l .. => some l
  | .vector l _ => some l
  | .bytes l _ => some l
  | _ => none

/-- Equivalent data have one label, or they are equal atoms. -/
theorem label?_or_sameAtom_of_eqvBy [DecidableEq ι] {d e : Datum ι ξ}
    (h : eqvBy (· == ·) sameObject d e = true) :
    (∃ l, d.label? = some l ∧ e.label? = some l) ∨ sameAtom sameObject d e = true := by
  unfold eqvBy at h
  split at h
  · exact Or.inl ⟨_, rfl, congrArg some (eq_of_beq h).symm⟩
  · exact Or.inl ⟨_, rfl, congrArg some (eq_of_beq h).symm⟩
  · exact Or.inl ⟨_, rfl, congrArg some (eq_of_beq h).symm⟩
  · exact Or.inr h

/-- Equal atoms are equal data. -/
theorem equalBy_of_sameAtom {d e : Datum ι ξ} (h : sameAtom sameObject d e = true) :
    equalBy same sameObject d e = true := by
  unfold equalBy
  split
  · cases h
  · cases h
  · cases h
  · exact h

/-- Of the data with labels, only vectors show anything. -/
theorem showsUnequal_eq_false_iff {d : Datum ι ξ} {l : ι} (h : d.label? = some l) :
    d.showsUnequal sameObject = false ↔
      ∀ l items, d = .vector l items → ∀ x ∈ items, x.showsUnequal sameObject = false := by
  cases d with
  | vector l items =>
    rw [showsUnequal, showUnequal_eq_any, List.any_eq_false]
    constructor
    · rintro hfree _ _ ⟨⟩ x hx
      exact Bool.eq_false_iff.2 (hfree x hx)
    · intro hfree x hx
      exact Bool.eq_false_iff.1 (hfree l items rfl x hx)
  | pair | bytes => exact iff_of_true rfl nofun
  | _ => cases h

end Datum

/-! ### Equal to what is equivalent -/

namespace Value

/-- Values with the same label are one object, and so the same. -/
def OneObject (a b : Value) : Prop := ∀ l, a.label? = some l → b.label? = some l → a = b

/-- A number with a NaN as a part, or an object that is not equal to itself, is the value or stands
inside it in vectors only. -/
abbrev showsUnequal (v : Value) : Bool := Datum.showsUnequal Object.sameValue v

theorem equal_self (v : Value) : v.equal v = !v.showsUnequal :=
  Datum.equalBy_self (fun l => beq_self_eq_true l) v

/-- **Equivalent values are equal**, unless they are one vector that shows a NaN or an object that
is not equal to itself. -/
theorem equal_iff_of_eqv {a b : Value} (hone : OneObject a b) (h : a.eqv b = true) :
    a.equal b = true ↔ ∀ l items, a = .vector l items → ∀ x ∈ items, showsUnequal x = false := by
  obtain ⟨l, ha, hb⟩ | hatom := Datum.label?_or_sameAtom_of_eqvBy h
  · rw [← hone l ha hb, equal_self, Bool.not_eq_true', Datum.showsUnequal_eq_false_iff ha]
  · refine iff_of_true (Datum.equalBy_of_sameAtom hatom) ?_
    rintro l items rfl
    cases b <;> cases hatom

/-- A vector of a list of a NaN is equal to itself, since equality takes the pair for equal to
itself. -/
theorem equal_iff_of_eqv_pair :
    let nan : Value := .number (.inexact ⟨Binary64.notANumber, 0⟩)
    let v : Value := .vector ⟨0, 0⟩ [.pair ⟨0, 1⟩ nan .nil]
    OneObject v v ∧ v.eqv v = true ∧ v.equal v = true := by
  intro nan v
  have hone : OneObject v v := fun _ _ _ => rfl
  refine ⟨hone, rfl, (equal_iff_of_eqv hone rfl).2 ?_⟩
  intro l items hv x hx
  obtain ⟨-, rfl⟩ := Datum.vector.inj hv
  rw [List.mem_singleton.1 hx]
  rfl

/-- A vector of a NaN is equivalent to itself and not equal to itself. -/
theorem eqv_and_not_equal :
    let v : Value := .vector ⟨0, 0⟩ [.number (.inexact ⟨Binary64.notANumber, 0⟩)]
    v.eqv v = true ∧ v.equal v = false := by
  decide +kernel

end Value

end Scheme
