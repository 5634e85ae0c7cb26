import Mathlib
import Scheme.Proofs.Equivalence

/-!
# Equality and sharing

The pairs of values are objects of a heap, where one pair can be part of many values.  Equality
takes a pair for equal to itself without a look at its parts.  Where no number has a NaN as a part
and every object is equal to itself, this makes no difference: values are equal if and only if they
have the same content, which is what remains of a value without its labels and without the signs of
its zeros.  So equality is an equivalence relation, and it does not depend on which parts the values
share.  An object that cannot be compared is not equal to itself, and a procedure is equal to
nothing but itself.

* `Object.sameValue_iff`: an object is the same as itself or as nothing;
* `Datum.isReflexive_iff`: the numbers and objects that this is about;
* `Datum.content`: the content of a datum;
* `Datum.LiesIn`: every pair has the parts that a heap gives for its label, and
  `Datum.exists_heap_iff`: this says that a label stands for one pair;
* `Datum.equalBy_iff_content`: equal data have the same content;
* `Value.equalParts`: the comparison of all parts;
* `Value.equality_of_content`: the main result, and `Value.equality_of_identity`: where it does not
  hold.
-/

namespace Scheme

/-! ### Numbers without the signs of zeros -/

namespace Binary64

/-- The number without the sign of a zero. -/
def dropZeroSign (x : Float) : Float := if x == 0 then 0 else x

theorem beq_iff_dropZeroSign {x : Float} (h : x.isNaN = false) (y : Float) :
    (x == y) = true ↔ dropZeroSign x = dropZeroSign y := by
  have hzero : ((0 : Float) == 0) = true := by decide
  rw [beq_iff, dropZeroSign, dropZeroSign]
  by_cases hx : (x == 0) = true <;> by_cases hy : (y == 0) = true
  · rw [if_pos hx, if_pos hy]
    exact iff_of_true ⟨h, Or.inr ⟨hx, hy⟩⟩ rfl
  · -- a zero is the only number that is a zero without its sign
    rw [if_pos hx, if_neg hy]
    refine iff_of_false ?_ ?_
    · rintro ⟨-, rfl | ⟨-, hy'⟩⟩
      · exact hy hx
      · exact hy hy'
    · rintro rfl
      exact hy hzero
  · rw [if_neg hx, if_pos hy]
    refine iff_of_false ?_ ?_
    · rintro ⟨-, rfl | ⟨hx', -⟩⟩
      · exact hx hy
      · exact hx hx'
    · rintro rfl
      exact hx hzero
  · rw [if_neg hx, if_neg hy]
    constructor
    · rintro ⟨-, hxy | ⟨hx', -⟩⟩
      · exact hxy
      · exact absurd hx' hx
    · intro hxy
      exact ⟨h, Or.inl hxy⟩

end Binary64

namespace Number

/-- The number without the signs of its zeros. -/
def dropZeroSigns : Number → Number
  | .exact z => .exact z
  | .inexact z => .inexact ⟨Binary64.dropZeroSign z.re, Binary64.dropZeroSign z.im⟩

theorem same_iff_dropZeroSigns {n : Number} (h : n.isNaNFree = true) (m : Number) :
    n.same m = true ↔ n.dropZeroSigns = m.dropZeroSigns := by
  cases n with
  | exact z =>
    cases m with
    | exact w => rw [same, decide_eq_true_iff, dropZeroSigns, dropZeroSigns, Number.exact.injEq]
    | inexact w =>
      refine iff_of_false Bool.false_ne_true fun hdrop => ?_
      rw [dropZeroSigns, dropZeroSigns] at hdrop
      cases hdrop
  | inexact z =>
    rw [isNaNFree, Bool.and_eq_true, Bool.not_eq_true', Bool.not_eq_true'] at h
    cases m with
    | exact w =>
      refine iff_of_false Bool.false_ne_true fun hdrop => ?_
      rw [dropZeroSigns, dropZeroSigns] at hdrop
      cases hdrop
    | inexact w =>
      rw [same, Bool.and_eq_true, Binary64.beq_iff_dropZeroSign h.1,
        Binary64.beq_iff_dropZeroSign h.2,
        dropZeroSigns, dropZeroSigns, Number.inexact.injEq, Cartesian.mk.injEq]

end Number

/-! ### Numbers and objects that are equal to themselves -/

namespace Object

theorem eq_of_sameContent {x y : Object} (h : sameContent x y = true) : x = y := by
  unfold sameContent at h
  split at h
  · exact congrArg host (eq_of_beq (Bool.and_eq_true_iff.1 h).2)
  · exact eq_of_beq h

theorem eq_absent_of_hostType? {x : Object} (h : x.hostType? = none) : x = .absent := by
  cases x with
  | absent => rfl
  | _ => cases h

/-- **An object is the same as another** if and only if they are one that is the same as itself. -/
theorem sameValue_iff {x y : Object} : x.sameValue y = true ↔ x = y ∧ x.sameValue x = true := by
  constructor
  · intro h
    have heq : x = y := by
      unfold sameValue at h
      split at h
      · next hx hy => rw [eq_absent_of_hostType? hx, eq_absent_of_hostType? hy]
      · exact eq_of_sameContent (Bool.and_eq_true_iff.1 h).2
      · cases h
    subst heq
    exact ⟨rfl, h⟩
  · rintro ⟨rfl, h⟩
    exact h

end Object

namespace Datum

variable {ι ξ : Type}

mutual

/-- A datum has a NaN nowhere, and all objects in it are the same as themselves. -/
theorem isReflexive_iff {sameObject : ξ → ξ → Bool} :
    (d : Datum ι ξ) → (d.isReflexive sameObject = true ↔
    d.isNaNFree = true ∧ ∀ x, Holds x d → sameObject x x = true)
  | .pair l a d => by
    rw [isReflexive, isNaNFree, Bool.and_eq_true, Bool.and_eq_true, isReflexive_iff a,
      isReflexive_iff d]
    constructor
    · rintro ⟨⟨ha, hxa⟩, hd, hxd⟩
      refine ⟨⟨ha, hd⟩, ?_⟩
      rintro x (_ | hx | hx)
      · exact hxa x hx
      · exact hxd x hx
    · rintro ⟨⟨ha, hd⟩, hx⟩
      exact ⟨⟨ha, fun x hxa => hx x hxa.car⟩, hd, fun x hxd => hx x hxd.cdr⟩
  | .vector l items => by
    rw [isReflexive, isNaNFree, areReflexive_iff items]
    refine and_congr_right fun _ => ⟨?_, fun h y hy x hx => h x (.item hy hx)⟩
    rintro h x (_ | _ | _ | ⟨hy, hx⟩)
    exact h _ hy x hx
  | .object x => ⟨fun h => ⟨rfl, by rintro _ ⟨⟩; exact h⟩, fun h => h.2 x .object⟩
  | .number _ => (and_iff_left nofun).symm
  | .symbol _ | .boolean _ | .char _ | .string _ | .nil | .bytes _ _ => iff_of_true rfl ⟨rfl, nofun⟩

theorem areReflexive_iff {sameObject : ξ → ξ → Bool} : (items : List (Datum ι ξ)) →
    (areReflexive sameObject items = true ↔
      areNaNFree items = true ∧ ∀ y ∈ items, ∀ x, Holds x y → sameObject x x = true)
  | [] => iff_of_true rfl ⟨rfl, List.forall_mem_nil _⟩
  | y :: items => by
    rw [areReflexive, areNaNFree, Bool.and_eq_true, Bool.and_eq_true, isReflexive_iff y,
      areReflexive_iff items, List.forall_mem_cons, and_and_and_comm]

end

/-! ### The content of data -/

mutual

/-- The datum without its labels and without the signs of its zeros. -/
def content : Datum ι ξ → Datum Unit ξ
  | .symbol s => .symbol s
  | .boolean b => .boolean b
  | .char c => .char c
  | .string s => .string s
  | .number n => .number n.dropZeroSigns
  | .nil => .nil
  | .pair _ car cdr => .pair () car.content cdr.content
  | .vector _ items => .vector () (contents items)
  | .bytes _ data => .bytes () data
  | .object x => .object x

/-- The contents of the data. -/
def contents : List (Datum ι ξ) → List (Datum Unit ξ)
  | [] => []
  | x :: xs => x.content :: contents xs

end

mutual

theorem content_unlabelled : (d : Datum ι ξ) → d.unlabelled.content = d.content
  | .pair _ a d => by rw [unlabelled, content, content, content_unlabelled a, content_unlabelled d]
  | .vector _ items => by rw [unlabelled, content, content, contents_unlabelledItems items]
  | .symbol _ | .boolean _ | .char _ | .string _ | .number _ | .nil | .bytes _ _ | .object _ => rfl

theorem contents_unlabelledItems :
    (xs : List (Datum ι ξ)) → contents (unlabelledItems xs) = contents xs
  | [] => rfl
  | x :: xs => by
    rw [unlabelledItems, contents, contents, content_unlabelled x, contents_unlabelledItems xs]

end

/-! ### Data in a heap -/

mutual

/-- Every pair of the datum has the parts that the heap gives for its label. -/
def LiesIn (heap : ι → Datum ι ξ × Datum ι ξ) : Datum ι ξ → Prop
  | .pair l car cdr => heap l = (car, cdr) ∧ car.LiesIn heap ∧ cdr.LiesIn heap
  | .vector _ items => LieIn heap items
  | _ => True

/-- The data lie in the heap. -/
def LieIn (heap : ι → Datum ι ξ × Datum ι ξ) : List (Datum ι ξ) → Prop
  | [] => True
  | x :: xs => x.LiesIn heap ∧ LieIn heap xs

end

mutual

/-- The pairs in the datum: their labels and their parts. -/
def pairs : Datum ι ξ → List (ι × Datum ι ξ × Datum ι ξ)
  | .pair l car cdr => (l, car, cdr) :: (car.pairs ++ cdr.pairs)
  | .vector _ items => pairsIn items
  | _ => []

/-- The pairs in the data. -/
def pairsIn : List (Datum ι ξ) → List (ι × Datum ι ξ × Datum ι ξ)
  | [] => []
  | x :: xs => x.pairs ++ pairsIn xs

end

mutual

theorem liesIn_iff_pairs (heap : ι → Datum ι ξ × Datum ι ξ) :
    (d : Datum ι ξ) → (d.LiesIn heap ↔ ∀ p ∈ d.pairs, heap p.1 = p.2)
  | .pair _ a d => by
    rw [LiesIn, pairs, List.forall_mem_cons, List.forall_mem_append, liesIn_iff_pairs heap a,
      liesIn_iff_pairs heap d]
  | .vector _ items => lieIn_iff_pairsIn heap items
  | .symbol _ | .boolean _ | .char _ | .string _ | .number _ | .nil | .bytes _ _ | .object _ =>
    iff_of_true trivial (List.forall_mem_nil _)

theorem lieIn_iff_pairsIn (heap : ι → Datum ι ξ × Datum ι ξ) :
    (xs : List (Datum ι ξ)) → (LieIn heap xs ↔ ∀ p ∈ pairsIn xs, heap p.1 = p.2)
  | [] => iff_of_true trivial (List.forall_mem_nil _)
  | x :: xs => by
    rw [LieIn, pairsIn, List.forall_mem_append, liesIn_iff_pairs heap x, lieIn_iff_pairsIn heap xs]

end

/-- **Data lie in one heap** if and only if one label never stands for two pairs. -/
theorem exists_heap_iff (s : Set (Datum ι ξ)) :
    (∃ heap : ι → Datum ι ξ × Datum ι ξ, ∀ d ∈ s, d.LiesIn heap) ↔
      ∀ d ∈ s, ∀ e ∈ s, ∀ p ∈ d.pairs, ∀ q ∈ e.pairs, p.1 = q.1 → p.2 = q.2 := by
  constructor
  · rintro ⟨heap, hheap⟩ d hd e he p hp q hq hlabel
    rw [← (liesIn_iff_pairs heap d).1 (hheap d hd) p hp, hlabel]
    exact (liesIn_iff_pairs heap e).1 (hheap e he) q hq
  · intro h
    classical
    -- a label that no pair has may stand for anything
    have hheap (l : ι) : ∃ parts, ∀ d ∈ s, ∀ p ∈ d.pairs, p.1 = l → parts = p.2 := by
      by_cases hl : ∃ d ∈ s, ∃ p ∈ d.pairs, p.1 = l
      · obtain ⟨d, hd, p, hp, rfl⟩ := hl
        exact ⟨p.2, fun e he q hq hlabel => h d hd e he p hp q hq hlabel.symm⟩
      · exact ⟨(.nil, .nil), fun d hd p hp hlabel => absurd ⟨d, hd, p, hp, hlabel⟩ hl⟩
    choose heap hheap using hheap
    exact ⟨heap, fun d hd => (liesIn_iff_pairs heap d).2 fun p hp => hheap p.1 d hd p hp rfl⟩

/-! ### Equal data -/

section Equality

variable {same : ι → ι → Bool} {sameObject : ξ → ξ → Bool} {heap : ι → Datum ι ξ × Datum ι ξ}

mutual

/-- **Equal data have the same content**, if pairs that count as the same have the same parts. -/
theorem equalBy_iff_content (hsame : ∀ l l', same l l' = true → heap l = heap l')
    (hobject : ∀ x y, sameObject x y = true ↔ x = y ∧ sameObject x x = true) : (d e : Datum ι ξ) →
      d.LiesIn heap → e.LiesIn heap → d.isReflexive sameObject = true →
        (equalBy same sameObject d e = true ↔ d.content = e.content)
  | .pair l a d, e, hd, he, hself => by
    cases e with
    | pair l' a' d' =>
      rw [LiesIn] at hd he
      rw [isReflexive, Bool.and_eq_true] at hself
      rw [equalBy, Bool.or_eq_true, Bool.and_eq_true, content, content, Datum.pair.injEq,
        equalBy_iff_content hsame hobject a a' hd.2.1 he.2.1 hself.1,
        equalBy_iff_content hsame hobject d d' hd.2.2 he.2.2 hself.2]
      constructor
      · rintro (hl | hparts)
        · have hparts : (a, d) = (a', d') := hd.1.symm.trans ((hsame l l' hl).trans he.1)
          cases hparts
          exact ⟨rfl, rfl, rfl⟩
        · exact ⟨rfl, hparts⟩
      · rintro ⟨-, hparts⟩
        exact Or.inr hparts
    | _ => exact iff_of_false nofun nofun
  | .vector _ xs, e, hd, he, hself => by
    cases e with
    | vector _ ys =>
      rw [LiesIn] at hd he
      rw [isReflexive] at hself
      rw [equalBy, content, content, Datum.vector.injEq,
        equalItems_iff_contents hsame hobject xs ys hd he hself]
      exact (and_iff_right rfl).symm
    | _ => exact iff_of_false nofun nofun
  | .number n, e, _, _, hself => by
    cases e with
    | number m =>
      rw [content, content, Datum.number.injEq, ← Number.same_iff_dropZeroSigns hself m]
      rfl
    | _ => exact iff_of_false nofun nofun
  | .object x, e, _, _, hself => by
    cases e with
    | object y =>
      rw [content, content, Datum.object.injEq]
      exact (hobject x y).trans (and_iff_left hself)
    | _ => exact iff_of_false nofun nofun
  | .symbol _, e, _, _, _ | .boolean _, e, _, _, _ | .char _, e, _, _, _ | .string _, e, _, _, _
  | .nil, e, _, _, _ | .bytes _ _, e, _, _, _ => by cases e <;> simp [equalBy, sameAtom, content]

theorem equalItems_iff_contents (hsame : ∀ l l', same l l' = true → heap l = heap l')
    (hobject : ∀ x y, sameObject x y = true ↔ x = y ∧ sameObject x x = true) :
      (xs ys : List (Datum ι ξ)) → LieIn heap xs → LieIn heap ys →
      areReflexive sameObject xs = true →
        (equalItems same sameObject xs ys = true ↔ contents xs = contents ys)
  | [], [], _, _, _ => iff_of_true rfl rfl
  | [], _ :: _, _, _, _ => iff_of_false nofun nofun
  | _ :: _, [], _, _, _ => iff_of_false nofun nofun
  | x :: xs, y :: ys, hxs, hys, hself => by
    rw [LieIn] at hxs hys
    rw [areReflexive, Bool.and_eq_true] at hself
    rw [equalItems, Bool.and_eq_true, contents, contents, List.cons.injEq,
      equalBy_iff_content hsame hobject x y hxs.1 hys.1 hself.1,
      equalItems_iff_contents hsame hobject xs ys hxs.2 hys.2 hself.2]

end

end Equality

end Datum

/-! ### The main result -/

namespace Value

/-- A heap gives the parts of the pair with a label. -/
abbrev Heap := Label → Value × Value

/-- The values of a heap in which no number has a NaN as a part and every object is equal to
itself. -/
def Heap.Comparable (heap : Heap) : Type := { v : Value // v.LiesIn heap ∧ v.isReflexive = true }

/-- The values have the same structure and equal atoms, by a comparison of all their parts. -/
def equalParts : Value → Value → Bool := Datum.equalBy (fun _ _ => false) Object.sameValue

section Comparisons

variable {heap : Heap} (a b : heap.Comparable)

theorem equal_iff_content : a.1.equal b.1 = true ↔ a.1.content = b.1.content :=
  Datum.equalBy_iff_content (fun _ _ h => congrArg heap (eq_of_beq h))
    (fun _ _ => Object.sameValue_iff) a.1 b.1
    a.2.1 b.2.1 a.2.2

theorem equalParts_iff_content : a.1.equalParts b.1 = true ↔ a.1.content = b.1.content :=
  Datum.equalBy_iff_content (fun _ _ h => absurd h Bool.false_ne_true)
    (fun _ _ => Object.sameValue_iff) a.1 b.1
    a.2.1 b.2.1 a.2.2

end Comparisons

/-- **Equality does not depend on sharing.**  On the values of a heap in which no number has a NaN
as a part and every object is equal to itself, equality is an equivalence relation, namely to have
the same content.  It agrees with the comparison of all parts, and it gives the same answer for
values of any heap that are the same but for labels, whatever parts they share. -/
theorem equality_of_content (heap : Heap) :
    Equivalence (fun a b : heap.Comparable => a.1.equal b.1 = true) ∧
      ∀ a b : heap.Comparable, (a.1.equal b.1 = true ↔ a.1.content = b.1.content) ∧
        a.1.equal b.1 = a.1.equalParts b.1 ∧
        ∀ (heap' : Heap) (a' b' : heap'.Comparable), a'.1.unlabelled = a.1.unlabelled →
          b'.1.unlabelled = b.1.unlabelled → a'.1.equal b'.1 = a.1.equal b.1 := by
  refine ⟨⟨fun a => ?_, fun {a b} hab => ?_, fun {a b c} hab hbc => ?_⟩,
    fun a b => ⟨equal_iff_content a b, ?_, ?_⟩⟩
  · exact (equal_iff_content a a).2 rfl
  · exact (equal_iff_content b a).2 ((equal_iff_content a b).1 hab).symm
  · exact (equal_iff_content a c).2
      (((equal_iff_content a b).1 hab).trans ((equal_iff_content b c).1 hbc))
  · rw [Bool.eq_iff_iff, equal_iff_content, equalParts_iff_content]
  · intro heap' a' b' ha hb
    rw [Bool.eq_iff_iff, equal_iff_content, equal_iff_content, ← Datum.content_unlabelled a'.1, ha,
      ← Datum.content_unlabelled b'.1, hb, Datum.content_unlabelled, Datum.content_unlabelled]

/-- A pair of one list twice is equal to a pair of two lists with the same elements. -/
theorem equality_of_content_shared :
    let one (label : Label) : Value := .pair label (.number (.ofInt 1)) .nil
    let shared : Value := .pair ⟨0, 0⟩ (one ⟨0, 1⟩) (one ⟨0, 1⟩)
    let apart : Value := .pair ⟨1, 0⟩ (one ⟨1, 1⟩) (one ⟨1, 2⟩)
    shared.equal apart = true ∧ shared.equal shared = apart.equal shared := by
  intro one shared apart
  let heap : Heap := fun l =>
    if l = ⟨0, 0⟩ then (one ⟨0, 1⟩, one ⟨0, 1⟩)
    else if l = ⟨1, 0⟩ then (one ⟨1, 1⟩, one ⟨1, 2⟩)
    else (.number (.ofInt 1), .nil)
  have hone (l : Label) (h : heap l = (.number (.ofInt 1), .nil)) : (one l).LiesIn heap :=
    ⟨h, trivial, trivial⟩
  let a : heap.Comparable := ⟨shared, ⟨rfl, hone _ rfl, hone _ rfl⟩, rfl⟩
  let b : heap.Comparable := ⟨apart, ⟨rfl, hone _ rfl, hone _ rfl⟩, rfl⟩
  have hshared : a.1.equal a.1 = b.1.equal a.1 :=
    (((equality_of_content heap).2 b a).2.2 heap a a rfl rfl)
  exact ⟨(equality_of_content heap).1.symm
    (hshared.symm.trans ((equality_of_content heap).1.refl a)), hshared⟩

/-- **The identity of objects matters.**  A value that cannot be compared is not equal to itself, so
that a pair of it is equal to itself and not to another such pair.  And two procedures that are made
of one expression in one frame are not equal, so that `(f g)` is not equal to `(f f)`, which is
equal to another `(f f)`. -/
theorem equality_of_identity :
    let host : Value := .object (.host ⟨⟨"list", false⟩, 0, true, none⟩)
    let holder (stamp : Nat) : Value := .pair ⟨stamp, 0⟩ host .nil
    let run (i : Interpreter) (text : String) : Outcome × Interpreter :=
      match Reader.readOne text with
      | .ok d => i.evalSexp 200 d Store.global
      | .error _ => (.unfinished, i)
    let first := run (.start 0 false) "(define code (quote (lambda (x) x)))"
    let second := run first.2 ("((lambda (f g) (list (equal? (list f f) (list f f))" ++
      " (equal? (list f g) (list f f)))) (eval code) (eval code))")
    let written (id : Nat) : Option (String × List String × FrameId) :=
      second.2.store.closures[id]?.map fun c => (c.params.write, c.body.map Datum.write, c.frame)
    (host.isNaNFree = true ∧ host.equal host = false) ∧
      ((holder 0).unlabelled = (holder 1).unlabelled ∧
        (holder 0).equal (holder 0) = true ∧ (holder 0).equal (holder 1) = false) ∧
      ((match second.1 with | .value v => some v.write | _ => none) = some "(#t #f)" ∧
        written 1 = some ("(x)", ["x"], Store.global) ∧ written 2 = written 1) := by
  exact ⟨by decide, ⟨rfl, by decide⟩, by decide +kernel⟩

end Value

end Scheme
