import Mathlib
import Scheme.Proofs.Effect
import Scheme.Proofs.Equivalence

/-!
# Walks along lists

The elements and the end of a chain of pairs can be found in several ways: all at once, or by a walk
that takes one step at a time and is gone on with until it ends.  All ways find the same, on a
proper list and on one with another end.

* `Datum.IsChain`: a datum is made of pairs with these elements before this very end;
* `Walk.Folds`: going on with a walk until it ends;
* `Walk.folds_start_iff`: this ends, after every element once and in order;
* `Walk.after_start`: a walk after any number of steps;
* `Datum.walked`: the ways to walk along a list agree.
-/

namespace Scheme

namespace Datum

variable {ι ξ : Type}

/-! ### Chains -/

/-- The datum is a chain of pairs with these elements before this very end. -/
inductive IsChain : Datum ι ξ → List (Datum ι ξ) → Datum ι ξ → Prop where
  | nil (d : Datum ι ξ) : IsChain d [] d
  | cons {d e : Datum ι ξ} {xs : List (Datum ι ξ)} (l : ι) (x : Datum ι ξ) (h : IsChain d xs e) :
      IsChain (.pair l x d) (x :: xs) e

namespace IsChain

variable {d d' e e' : Datum ι ξ} {xs ys : List (Datum ι ξ)}

theorem append (h : d.IsChain xs e) (h' : e.IsChain ys e') : d.IsChain (xs ++ ys) e' := by
  induction h with
  | nil => exact h'
  | cons l x _ ih => exact .cons l x (ih h')

/-- The elements of a chain come before those of its end. -/
theorem spine_eq (h : d.IsChain xs e) : d.spine = (xs ++ e.spine.1, e.spine.2) := by
  induction h with
  | nil => rfl
  | cons l x _ ih =>
    rw [spine_pair, ih]
    rfl

theorem elements_eq (h : d.IsChain xs e) : d.elements = xs ++ e.elements :=
  congrArg Prod.fst h.spine_eq

/-- A chain is proper if its end is. -/
theorem isProper_eq (h : d.IsChain xs e) : d.isProper = e.isProper := by
  rw [isProper, h.spine_eq]
  rfl

/-- Chains of the same elements before the same end are the same but for the labels of their
pairs. -/
theorem unlabelled_eq (h : d.IsChain xs e) (h' : d'.IsChain xs e) : d.unlabelled = d'.unlabelled :=
  unlabelled_eq_of_spine (h.spine_eq.trans h'.spine_eq.symm)

/-- Chains of the same elements before the same end are equal if each of these is equal to
itself. -/
theorem equalBy {same : ι → ι → Bool} {sameObject : ξ → ξ → Bool} (h : d.IsChain xs e)
    (h' : d'.IsChain xs e) (hxs : ∀ x ∈ xs, x.equalBy same sameObject x = true)
    (he : e.equalBy same sameObject e = true) :
    d.equalBy same sameObject d' = true := by
  induction h generalizing d' with
  | nil =>
    cases h'
    exact he
  | cons l x _ ih =>
    cases h' with
    | cons l' _ h' =>
      rw [Datum.equalBy, hxs x List.mem_cons_self,
        ih h' (fun y hy => hxs y (List.mem_cons_of_mem x hy)) he,
        Bool.and_self, Bool.or_true]

end IsChain

/-- Every datum is the chain of its elements before its end. -/
theorem isChain_spine : (d : Datum ι ξ) → d.IsChain d.spine.1 d.spine.2
  | .pair l x d => .cons l x (isChain_spine d)
  | .symbol _ | .boolean _ | .char _ | .string _ | .number _ | .nil | .vector _ _ | .bytes
      _ _ | .object _ => .nil _

/-- The end of a chain is no pair. -/
theorem spine_snd_ne_pair (d : Datum ι ξ) (l : ι) (x y : Datum ι ξ) : d.spine.2 ≠ .pair l x y := by
  match d with
  | .pair _ _ d => exact spine_snd_ne_pair d l x y
  | .symbol _ | .boolean _ | .char _ | .string _ | .number _ | .nil | .vector _ _ | .bytes
      _ _ | .object _ => nofun

theorem eq_nil_of_isNil {d : Datum ι ξ} (h : d.isNil = true) : d = .nil := by
  cases d with
  | nil => rfl
  | _ => cases h

@[simp] theorem isSome_tail? (d : Datum ι ξ) : d.tail?.isSome = !d.isProper := by
  unfold tail? isProper
  cases d.spine.2.isNil <;> rfl

/-- The end is `()` if there is no other. -/
theorem getD_tail? (d : Datum ι ξ) : d.tail?.getD .nil = d.spine.2 := by
  unfold tail?
  split_ifs with h
  · exact (eq_nil_of_isNil h).symm
  · rfl

/-- The end that is given is neither a pair nor `()`. -/
theorem ne_of_tail?_eq_some {d e : Datum ι ξ} (h : d.tail? = some e) :
    e ≠ .nil ∧ ∀ l x y, e ≠ .pair l x y := by
  unfold tail? at h
  split_ifs at h with hnil
  obtain rfl := Option.some.inj h
  refine ⟨fun he => hnil ?_, spine_snd_ne_pair d⟩
  rw [he]
  rfl

theorem elements?_eq (d : Datum ι ξ) : d.elements? = if d.isProper then some d.elements else none :=
  rfl

end Datum

/-! ### Going on with a walk -/

namespace Walk

variable {ι ξ α : Type}

/-- Going on with a walk until there is no further element, while `f` takes in each element. -/
inductive Folds (f : α → Datum ι ξ → α) : Walk ι ξ → α → Walk ι ξ → α → Prop where
  | ended {w w' : Walk ι ξ} {a : α} (h : w.next = (false, w')) : Folds f w a w' a
  | element {w w' w'' : Walk ι ξ} {a b : α} {x : Datum ι ξ} (h : w.next = (true, w'))
      (hx : w'.current = some x)
      (hrest : Folds f w' (f a x) w'' b) : Folds f w a w'' b

/-- The elements met in a number of steps. -/
def met (w : Walk ι ξ) : Nat → List (Datum ι ξ)
  | 0 => []
  | k + 1 =>
    match w.next with
    | (true, w') => w'.current.toList ++ w'.met k
    | (false, w') => w'.met k

variable {f : α → Datum ι ξ → α}

theorem Folds.unique {w w' w'' : Walk ι ξ} {a b b' : α} (h : Folds f w a w' b)
    (h' : Folds f w a w'' b') :
    w' = w'' ∧ b = b' := by
  induction h with
  | ended h =>
    cases h' with
    | ended h' =>
      cases h.symm.trans h'
      exact ⟨rfl, rfl⟩
    | element h' => cases h.symm.trans h'
  | element h hx _ ih =>
    cases h' with
    | ended h' => cases h.symm.trans h'
    | element h' hx' hrest' =>
      cases h.symm.trans h'
      cases hx.symm.trans hx'
      exact ih hrest'

/-- What ends a walk that met `current` last. -/
theorem next_of_not_pair (d : Datum ι ξ) (h : ∀ l x y, d ≠ .pair l x y)
    (current : Option (Datum ι ξ)) :
    (⟨some d, current, false⟩ : Walk ι ξ).next = (false, ⟨none, current, !d.isNil⟩) := by
  cases d with
  | pair l x y => exact absurd rfl (h l x y)
  | _ => rfl

/-- A walk goes along the whole chain. -/
theorem folds_of_isChain {d e : Datum ι ξ} {xs : List (Datum ι ξ)} (h : d.IsChain xs e)
    (he : ∀ l x y, e ≠ .pair l x y) (current : Option (Datum ι ξ)) (a : α) :
    Folds f ⟨some d, current, false⟩ a ⟨none, xs.getLast?.or current, !e.isNil⟩ (xs.foldl f a) := by
  induction h generalizing current a with
  | nil e => exact .ended (next_of_not_pair e he current)
  | @cons d e xs l x _ ih =>
    have hlast : (x :: xs).getLast?.or current = xs.getLast?.or (some x) := by
      rw [List.getLast?_cons, Option.some_or]
      cases xs.getLast? <;> rfl
    rw [hlast]
    exact .element rfl rfl (ih he (some x) (f a x))

/-- **A walk that is gone on with ends**, after every element once and in order, and it tells
whether the list is improper. -/
theorem folds_start_iff {d : Datum ι ξ} {a b : α} {w : Walk ι ξ} : Folds f (start d) a w b ↔
    w = ⟨none, d.elements.getLast?, d.tail?.isSome⟩ ∧ b = d.elements.foldl f a := by
  have hends : Folds f (start d) a ⟨none, d.elements.getLast?, d.tail?.isSome⟩
      (d.elements.foldl f a) := by
    have := folds_of_isChain (f := f) d.isChain_spine d.spine_snd_ne_pair none a
    rw [Option.or_none] at this
    rw [Datum.isSome_tail?]
    exact this
  constructor
  · exact fun h => h.unique hends
  · rintro ⟨rfl, rfl⟩
    exact hends

/-- Taking in each element at the end makes up the list again. -/
theorem foldl_snoc {β : Type} (xs : List β) : xs.foldl (fun ys y => ys ++ [y]) [] = xs := by
  rw [List.foldl_append_eq_append, List.nil_append, ← List.flatMap_def, List.flatMap_singleton']

/-! ### Any number of steps -/

/-- A walk that has ended stays as it is. -/
theorem after_ended (current : Option (Datum ι ξ)) (improper : Bool) (k : Nat) :
    (⟨none, current, improper⟩ : Walk ι ξ).after k = ⟨none, current, improper⟩ := by
  induction k with
  | zero => rfl
  | succ k ih => exact ih

theorem met_ended (current : Option (Datum ι ξ)) (improper : Bool) (k : Nat) :
    (⟨none, current, improper⟩ : Walk ι ξ).met k = [] := by
  induction k with
  | zero => rfl
  | succ k ih => exact ih

/-- A walk after some steps: the element met last, whether there is a further one, and whether an
end other than `()` has been met. -/
structure IsAt (w : Walk ι ξ) (current : Option (Datum ι ξ)) (more improper : Bool) : Prop where
  current : w.current = current
  more : w.next.1 = more
  improper : w.improper = improper

/-- After `k` steps along a chain the walk has met its first `k` elements, or all of them if there
are fewer. -/
theorem after_of_isChain {d e : Datum ι ξ} {xs : List (Datum ι ξ)} (h : d.IsChain xs e)
    (he : ∀ l x y, e ≠ .pair l x y) (current : Option (Datum ι ξ)) (k : Nat) :
    (⟨some d, current, false⟩ : Walk ι ξ).met k = xs.take k ∧
      ((⟨some d, current, false⟩ : Walk ι ξ).after k).IsAt ((xs.take k).getLast?.or current)
        (decide (k < xs.length)) (decide (xs.length < k) && !e.isNil) := by
  induction h generalizing current k with
  | nil e =>
    have hnext := next_of_not_pair e he current
    cases k with
    | zero => exact ⟨rfl, rfl, congrArg Prod.fst hnext, rfl⟩
    | succ k =>
      refine ⟨?_, ?_⟩
      · rw [met, hnext]
        exact met_ended current _ k
      · rw [after, hnext, after_ended]
        exact ⟨rfl, rfl, rfl⟩
  | @cons d e xs l x _ ih =>
    cases k with
    | zero => exact ⟨rfl, rfl, rfl, rfl⟩
    | succ k =>
      obtain ⟨hmet, hat⟩ := ih he (some x) k
      refine ⟨congrArg (x :: ·) hmet, ?_⟩
      have hlast :
          ((x :: xs).take (k + 1)).getLast?.or current = (xs.take k).getLast?.or (some x) := by
        rw [List.take_succ_cons, List.getLast?_cons, Option.some_or]
        cases (xs.take k).getLast? <;> rfl
      simp only [hlast, List.length_cons, Nat.add_lt_add_iff_right]
      exact hat

end Walk

namespace Datum

variable {ι ξ : Type}

/-! ### All ways agree -/

/-- All ways to walk along a list find these elements and, if it is improper, this end. -/
structure Walked (d : Datum ι ξ) (xs : List (Datum ι ξ)) (t : Option (Datum ι ξ)) : Prop where
  chain : d.IsChain xs (t.getD .nil)
  tail : ∀ e, t = some e → e ≠ .nil ∧ ∀ l x y, e ≠ .pair l x y
  elements : d.elements? = if t.isSome then none else some xs
  length : d.length = xs.length
  collected : ∀ w ys, Walk.Folds (fun ys y => ys ++ [y]) (Walk.start d) [] w ys ↔
    w = ⟨none, xs.getLast?, t.isSome⟩ ∧ ys = xs
  counted : ∀ w n, Walk.Folds (fun n _ => n + 1) (Walk.start d) 0 w n ↔
    w = ⟨none, xs.getLast?, t.isSome⟩ ∧ n = xs.length
  steps : ∀ k, (Walk.start d).met k = xs.take k ∧
    ((Walk.start d).after k).IsAt (xs.take k).getLast? (decide (k < xs.length))
      (decide (xs.length < k) && t.isSome)

/-- **The ways to walk along a list agree.** -/
theorem walked (d : Datum ι ξ) : d.Walked d.elements d.tail? where
  chain := by
    rw [getD_tail?]
    exact d.isChain_spine
  tail := fun _ => ne_of_tail?_eq_some
  elements := by
    rw [elements?_eq, isSome_tail?]
    cases d.isProper <;> rfl
  length := rfl
  collected := by
    intro w ys
    rw [Walk.folds_start_iff, Walk.foldl_snoc]
  counted := by
    intro w n
    rw [Walk.folds_start_iff]
    simp
  steps := by
    intro k
    have h := Walk.after_of_isChain d.isChain_spine d.spine_snd_ne_pair none k
    rw [Option.or_none] at h
    rw [isSome_tail?]
    exact h

/-- A walk along `(a . b)` meets one element, and notices the end at its second step. -/
example :
    let w : Walk Unit Empty := .start (.pair () (.symbol "a") (.symbol "b"))
    w.met 3 = [.symbol "a"] ∧ (w.after 1).improper = false ∧ (w.after 2).improper = true :=
  ⟨rfl, rfl, rfl⟩

end Datum

end Scheme
