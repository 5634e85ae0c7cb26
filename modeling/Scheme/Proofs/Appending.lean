import Mathlib
import Scheme.Proofs.Contagion
import Scheme.Proofs.Splicing
import Scheme.Proofs.Walks

/-!
# Appending lists

`append` puts the elements of all its arguments but the last before the last one, which it shares.
It fails if one of the others is no proper list, and blames the rightmost such argument.  So it
makes no difference whether some neighbouring arguments are appended first.

* `Prelude.allElements_eq_ok_iff`, `Prelude.allElements_of_improper`: the elements of lists, and a
  list that is none;
* `Concatenates`: what `append` has to come to, and `concatenates_of_appends`: it does;
* `alike_of_grouped`: arguments that are appended first;
* `list_walks_agree`: the main result, with the walks along lists on which all this relies.
-/

namespace Scheme

/-! ### The elements of lists -/

namespace Prelude

/-- The elements of lists are found exactly if all of them are proper. -/
theorem allElements_eq_ok_iff {lists items : List Value} : allElements lists = .ok items ↔
    (∀ l ∈ lists, l.isProper = true) ∧ items = lists.flatMap Datum.elements := by
  induction lists generalizing items with
  | nil =>
    rw [allElements, Except.ok.injEq]
    exact ⟨fun h => ⟨List.forall_mem_nil _, h.symm⟩, fun h => h.2.symm⟩
  | cons v lists ih =>
    rw [List.forall_mem_cons, List.flatMap_cons]
    cases hlists : allElements lists with
    | error e =>
      rw [allElements_cons_error hlists]
      refine iff_of_false (by simp) fun h => ?_
      cases hlists.symm.trans (ih.2 ⟨h.1.2, rfl⟩)
    | ok more =>
      obtain ⟨hproper, rfl⟩ := ih.1 hlists
      cases hv : v.isProper with
      | true =>
        have hitems : v.elements? = some v.elements := by rw [Datum.elements?_eq, if_pos hv]
        rw [allElements_cons_some hitems hlists, Except.ok.injEq]
        exact ⟨fun h => ⟨⟨rfl, hproper⟩, h.symm⟩, fun h => h.2.symm⟩
      | false =>
        rw [allElements_cons_none (by rw [Datum.elements?_eq, hv]; rfl) hlists]
        exact iff_of_false (by simp) fun h => Bool.false_ne_true h.1.1

/-- The last list that is none is blamed. -/
theorem allElements_of_improper (before : List Value) {v : Value} {after : List Value}
    (hv : v.isProper = false) (hafter : ∀ l ∈ after, l.isProper = true) :
    allElements (before ++ v :: after) = .error (.notList v.write) := by
  induction before with
  | nil =>
    refine allElements_cons_none ?_ (allElements_eq_ok_iff.2 ⟨hafter, rfl⟩)
    rw [Datum.elements?_eq, hv]
    rfl
  | cons x before ih => exact allElements_cons_error ih

/-- Of two improper lists the one on the right is blamed. -/
example (l l' : Label) (a b c d : String) :
    allElements [.pair l (.symbol a) (.symbol b), .nil, .pair l' (.symbol c) (.symbol d), .nil] =
      .error (.notList (Datum.pair l' (.symbol c) (.symbol d) : Value).write) :=
  rfl

/-- All lists are proper, or one is the last that is not. -/
theorem proper_or_last_improper (lists : List Value) :
    (∀ l ∈ lists, l.isProper = true) ∨
      ∃ before v after, lists = before ++ v :: after ∧ v.isProper = false ∧
        ∀ l ∈ after, l.isProper = true := by
  induction lists with
  | nil => exact .inl (List.forall_mem_nil _)
  | cons x lists ih =>
    obtain hproper | ⟨before, v, after, rfl, hv, hafter⟩ := ih
    · cases hx : x.isProper with
      | true => exact .inl (List.forall_mem_cons.2 ⟨hx, hproper⟩)
      | false => exact .inr ⟨[], x, lists, rfl, hx, hproper⟩
    · exact .inr ⟨x :: before, v, after, rfl, hv, hafter⟩

/-- The number of elements is found exactly if the list is proper. -/
theorem listLength_eq (v : Value) : listLength v =
    if v.tail?.isSome then .error (.notList v.write) else .ok v.elements.length := by
  have helements := v.walked.elements
  unfold listLength
  cases htail : v.tail?.isSome with
  | true =>
    rw [htail] at helements
    rw [Checked.elements_of_none helements]
    rfl
  | false =>
    rw [htail] at helements
    rw [Checked.elements_of_some helements]
    rfl

end Prelude

/-! ### Lists of fresh pairs -/

theorem Value.isChain_listFrom (stamp index : Nat) (items : List Value) (tail : Value) :
    (listFrom stamp index items tail).IsChain items tail := by
  induction items generalizing index with
  | nil => exact .nil tail
  | cons x items ih => exact .cons _ x (ih (index + 1))

/-- A list that is made of elements and an end is a chain of them. -/
theorem Value.isChain_list (stamp : Nat) (items : List Value) (tail : Value) :
    (list stamp items tail).IsChain items tail :=
  isChain_listFrom stamp 0 items tail

/-- The elements and the end of a written list make up the list. -/
theorem Sexp.ofList_of_isChain {d e : Sexp} {xs : List Sexp} (h : Datum.IsChain d xs e) :
    ofList xs e = d := by
  induction h with
  | nil => rfl
  | cons l x _ ih => rw [ofList_cons, ih]

/-! ### What appending comes to -/

/-- The outcome is what `append` has to come to: the elements of all arguments but the last before
the last one itself, or a failure that blames the rightmost of the others that is improper. -/
inductive Concatenates : List Value → Outcome → Prop where
  | none : Concatenates [] (.value .nil)
  | lists {lists : List Value} {last v : Value} (h : ∀ l ∈ lists, l.isProper = true)
      (hv : v.IsChain (lists.flatMap Datum.elements) last) :
      Concatenates (lists ++ [last]) (.value v)
  | improper (before : List Value) {v : Value} {after : List Value} (last : Value)
      (h : v.isProper = false)
      (hafter : ∀ l ∈ after, l.isProper = true) :
      Concatenates (before ++ v :: after ++ [last])
        (.error { kind := .notList, name := Primitive.append.name, detail := v.write })

/-- All arguments but the last are proper lists. -/
def ProperButLast (args : List Value) : Prop := ∀ l ∈ args.dropLast, l.isProper = true

/-- The failures are of one kind and name. -/
def EvalError.SameFailure (e e' : EvalError) : Prop := e.kind = e'.kind ∧ e.name = e'.name

namespace Concatenates

variable {args args' : List Value} {o o' : Outcome} {v : Value} {e : EvalError}

theorem value_iff : Concatenates args (.value v) ↔ ProperButLast args ∧
    v.IsChain (args.dropLast.flatMap Datum.elements) (args.getLast?.getD .nil) := by
  constructor
  · intro h
    cases h with
    | none => exact ⟨List.forall_mem_nil _, .nil _⟩
    | lists h hv =>
      rw [ProperButLast, List.dropLast_concat, List.getLast?_concat]
      exact ⟨h, hv⟩
  · rintro ⟨hproper, hv⟩
    obtain rfl | ⟨lists, last, rfl⟩ := List.eq_nil_or_concat' args
    · cases hv
      exact .none
    · rw [ProperButLast, List.dropLast_concat] at hproper
      rw [List.dropLast_concat, List.getLast?_concat] at hv
      exact .lists hproper hv

theorem of_error (h : Concatenates args (.error e)) :
    ¬ ProperButLast args ∧ e.kind = .notList ∧ e.name = Primitive.append.name := by
  cases h with
  | improper before last h hafter =>
    refine ⟨fun hproper => ?_, rfl, rfl⟩
    rw [ProperButLast, List.dropLast_concat] at hproper
    exact Bool.false_ne_true (h.symm.trans (hproper _ (by simp)))

/-- Appending fails exactly if an argument but the last is improper. -/
theorem error_iff (h : Concatenates args o) : (∃ e, o = .error e) ↔ ¬ ProperButLast args := by
  cases o with
  | value v => exact iff_of_false nofun fun hnot => hnot (value_iff.1 h).1
  | error e => exact iff_of_true ⟨e, rfl⟩ h.of_error.1
  | stuck => cases h
  | unfinished => cases h

/-- Outcomes of appending are alike if the same is appended. -/
theorem alike (h : Concatenates args o) (h' : Concatenates args' o')
    (hproper : ProperButLast args ↔ ProperButLast args')
    (hchain : ∀ v v' : Value, v.IsChain (args.dropLast.flatMap Datum.elements)
      (args.getLast?.getD .nil) →
      v'.IsChain (args'.dropLast.flatMap Datum.elements) (args'.getLast?.getD .nil) →
      v.unlabelled = v'.unlabelled) : o.Alike EvalError.SameFailure o' := by
  cases o with
  | value v =>
    cases o' with
    | value v' => exact hchain v v' (value_iff.1 h).2 (value_iff.1 h').2
    | error e' => exact absurd (hproper.1 (value_iff.1 h).1) h'.of_error.1
    | stuck => cases h'
    | unfinished => cases h'
  | error e =>
    cases o' with
    | value v' => exact absurd (hproper.2 (value_iff.1 h').1) h.of_error.1
    | error e' =>
      obtain ⟨-, hkind, hname⟩ := h.of_error
      obtain ⟨-, hkind', hname'⟩ := h'.of_error
      exact ⟨hkind.trans hkind'.symm, hname.trans hname'.symm⟩
    | stuck => cases h'
    | unfinished => cases h'
  | stuck => cases h
  | unfinished => cases h

end Concatenates

/-! ### Arguments that are appended first -/

section Grouping

variable {before mid after : List Value} {o o' : Outcome}

/-- **The value of some neighbouring arguments** may stand in their place. -/
theorem alike_of_grouped (hmid : mid ≠ []) {m : Value} (hm : Concatenates mid (.value m))
    (h : Concatenates (before ++ m :: after) o) (h' : Concatenates (before ++ mid ++ after) o') :
    o.Alike EvalError.SameFailure o' := by
  obtain ⟨lists, last, rfl⟩ := (List.eq_nil_or_concat' mid).resolve_left hmid
  obtain ⟨hlists, hm⟩ := Concatenates.value_iff.1 hm
  rw [ProperButLast, List.dropLast_concat] at hlists
  rw [List.dropLast_concat, List.getLast?_concat, Option.getD_some] at hm
  obtain rfl | ⟨others, shared, rfl⟩ := List.eq_nil_or_concat' after
  · -- the value is the last argument, and what it shares is the last of the group
    have hflat : before ++ (lists ++ [last]) ++ [] = before ++ lists ++ [last] := by
      rw [List.append_nil, List.append_assoc]
    rw [hflat] at h'
    refine h.alike h' ?_ fun v v' hv hv' => ?_
    · rw [ProperButLast, ProperButLast, List.dropLast_concat, List.dropLast_concat,
        List.forall_mem_append]
      exact (and_iff_left hlists).symm
    · rw [List.dropLast_concat, List.getLast?_concat, Option.getD_some] at hv hv'
      rw [List.flatMap_append] at hv'
      exact (hv.append hm).unlabelled_eq hv'
  · -- the value is proper if the last of the group is
    have hgrouped : before ++ m :: (others ++ [shared]) = before ++ m :: others ++ [shared] := by
      rw [List.append_assoc, List.cons_append]
    have hflat : before ++ (lists ++ [last]) ++ (others ++ [shared]) =
        before ++ (lists ++ last :: others) ++ [shared] := by
      simp only [List.append_assoc, List.cons_append, List.nil_append]
    rw [hgrouped] at h
    rw [hflat] at h'
    refine h.alike h' ?_ fun v v' hv hv' => ?_
    · rw [ProperButLast, ProperButLast, List.dropLast_concat, List.dropLast_concat]
      simp only [List.forall_mem_append, List.forall_mem_cons, hm.isProper_eq]
      exact and_congr_right fun _ => (and_iff_right hlists).symm
    · rw [List.dropLast_concat, List.getLast?_concat, Option.getD_some] at hv hv'
      have helements : (before ++ m :: others).flatMap Datum.elements =
          (before ++ (lists ++ last :: others)).flatMap Datum.elements := by
        simp only [List.flatMap_append, List.flatMap_cons, hm.elements_eq, List.append_assoc]
      rw [helements] at hv
      exact hv.unlabelled_eq hv'

/-- If appending some neighbouring arguments fails, so does appending all. -/
theorem alike_of_grouped_error {e : EvalError} (hm : Concatenates mid (.error e))
    (h' : Concatenates (before ++ mid ++ after) o') :
    (Outcome.error e).Alike EvalError.SameFailure o' := by
  obtain ⟨hnot, hkind, hname⟩ := hm.of_error
  have hnot' : ¬ ProperButLast (before ++ mid ++ after) := by
    refine fun hproper => hnot fun l hl => hproper l ?_
    obtain rfl | ⟨others, shared, rfl⟩ := List.eq_nil_or_concat' after
    · rw [List.append_nil, List.dropLast_append_of_ne_nil
        (List.ne_nil_of_mem (List.mem_of_mem_dropLast hl))]
      exact List.mem_append_right before hl
    · rw [← List.append_assoc, List.dropLast_concat]
      exact List.mem_append_left others (List.mem_append_right before (List.mem_of_mem_dropLast hl))
  obtain ⟨e', rfl⟩ := h'.error_iff.2 hnot'
  obtain ⟨-, hkind', hname'⟩ := h'.of_error
  exact ⟨hkind.trans hkind'.symm, hname.trans hname'.symm⟩

end Grouping

/-! ### Calls of `append` -/

/-- A call of `append` comes to one end, which is what it has to come to. -/
theorem append_ends (i : Interpreter) (args : List Value) : ∃ o i',
    (∀ o₁ i₁, i.AppliesTo (.object (.primitive .append)) args o₁ i₁ ↔ o₁ = o ∧ i₁ = i') ∧
    Concatenates args o := by
  have hrun := Primitive.run_append i.store.clock args
  obtain rfl | ⟨lists, last, rfl⟩ := List.eq_nil_or_concat' args
  · exact ⟨_, _, fun _ _ => Interpreter.appliesTo_of_give hrun, .none⟩
  · rw [Prelude.appendLists_concat] at hrun
    obtain hproper | ⟨before, v, after, rfl, hv, hafter⟩ := Prelude.proper_or_last_improper lists
    · rw [Prelude.allElements_eq_ok_iff.2 ⟨hproper, rfl⟩] at hrun
      exact ⟨_, _, fun _ _ => Interpreter.appliesTo_of_give hrun,
        .lists hproper (Value.isChain_list _ _ _)⟩
    · rw [Prelude.allElements_of_improper before hv hafter] at hrun
      exact ⟨_, _, fun _ _ => Interpreter.appliesTo_of_error hrun, .improper before last hv hafter⟩

/-- A call of `append` with these arguments comes to this outcome, in some state. -/
def Appends (args : List Value) (o : Outcome) : Prop :=
  ∃ i i' : Interpreter, i.AppliesTo (.object (.primitive .append)) args o i'

/-- A call of `append` comes to this outcome when one of its arguments is the value of another call,
which is made first. -/
def AppendsAfter (inner : List Value) (outer : Value → List Value) (o : Outcome) : Prop :=
  (∃ m, Appends inner (.value m) ∧ Appends (outer m) o) ∨
    ∃ e, Appends inner (.error e) ∧ o = .error e

theorem concatenates_of_appends {args : List Value} {o : Outcome} (h : Appends args o) :
    Concatenates args o := by
  obtain ⟨i, i', h⟩ := h
  obtain ⟨o', i'', hends, ho'⟩ := append_ends i args
  obtain ⟨rfl, -⟩ := (hends _ _).1 h
  exact ho'

/-- **It makes no difference** whether some neighbouring arguments are appended first. -/
theorem alike_of_appendsAfter {before mid after : List Value} (hmid : mid ≠ []) {o o' : Outcome}
    (h : AppendsAfter mid (fun m => before ++ m :: after) o)
    (h' : Appends (before ++ mid ++ after) o') :
    o.Alike EvalError.SameFailure o' := by
  obtain ⟨m, hm, ho⟩ | ⟨e, he, rfl⟩ := h
  · exact alike_of_grouped hmid (concatenates_of_appends hm) (concatenates_of_appends ho)
      (concatenates_of_appends h')
  · exact alike_of_grouped_error (concatenates_of_appends he) (concatenates_of_appends h')

theorem exists_appends (args : List Value) : ∃ o, Appends args o := by
  obtain ⟨o, i', hends, -⟩ := append_ends (Interpreter.start 0 false) args
  exact ⟨o, _, i', (hends o i').2 ⟨rfl, rfl⟩⟩

/-- **`append` is associative.** -/
theorem alike_of_associated {a b c : Value} {o o' : Outcome}
    (h : AppendsAfter [a, b] (fun m => [m, c]) o) (h' : AppendsAfter [b, c] (fun m => [a, m]) o') :
    o.Alike EvalError.SameFailure o' := by
  obtain ⟨flat, hflat⟩ := exists_appends [a, b, c]
  -- both are the call with all three arguments
  have hleft : o.Alike EvalError.SameFailure flat :=
    alike_of_appendsAfter (List.cons_ne_nil a [b])
      (show AppendsAfter [a, b] (fun m => [] ++ m :: [c]) o from h) hflat
  have hright : o'.Alike EvalError.SameFailure flat :=
    alike_of_appendsAfter (List.cons_ne_nil b [c])
      (show AppendsAfter [b, c] (fun m => [a] ++ m :: []) o' from h')
      hflat
  exact Outcome.Alike.trans (fun _ _ _ h₁ h₂ => ⟨h₁.1.trans h₂.1, h₁.2.trans h₂.2⟩) hleft
    (Outcome.Alike.symm (fun _ _ h => ⟨h.1.symm, h.2.symm⟩) hright)

/-! ### Lists -/

/-- **The ways to walk along a list agree, and so `append` puts lists together.**  A list is made of
its elements and its end again: it is the same but for the labels of its pairs, and equal unless an
element or the end shows an atom that is not equal to itself.  Its length is the number of its
elements, unless it is improper.  A walk that is gone on with takes in the elements and counts them,
and after any number of steps it is where the elements say.  A call of `append` comes to one end,
with the elements of all arguments but the last before the last one itself; it fails if and only if
one of those is improper, and blames the rightmost.  It makes no difference to the elements and the
end, nor to whether it fails, whether neighbouring arguments are appended first. -/
theorem list_walks_agree :
    (∀ d : Value, d.Walked d.elements d.tail? ∧
      (Prelude.listLength d =
        if d.tail?.isSome then .error (.notList d.write) else .ok d.elements.length) ∧
      ∀ stamp : Nat,
        (Value.list stamp d.elements (d.tail?.getD .nil)).IsChain d.elements (d.tail?.getD .nil) ∧
        (Value.list stamp d.elements (d.tail?.getD .nil)).unlabelled = d.unlabelled ∧
        ((∀ x ∈ d.elements, Value.showsUnequal x = false) →
          Value.showsUnequal (d.tail?.getD .nil) = false →
          d.equal (Value.list stamp d.elements (d.tail?.getD .nil)) = true)) ∧
    (∀ d : Sexp, d.Walked d.elements d.tail? ∧ Sexp.ofList d.elements (d.tail?.getD .nil) = d) ∧
    (∀ (i : Interpreter) (args : List Value), ∃ o i',
      (∀ o₁ i₁, i.AppliesTo (.object (.primitive .append)) args o₁ i₁ ↔ o₁ = o ∧ i₁ = i') ∧
      Concatenates args o ∧ ((∃ e, o = .error e) ↔ ∃ l ∈ args.dropLast, l.tail?.isSome = true)) ∧
    (∀ (before mid after : List Value) (o o' : Outcome), mid ≠ [] →
      AppendsAfter mid (fun m => before ++ m :: after) o → Appends (before ++ mid ++ after) o' →
      o.Alike EvalError.SameFailure o') ∧
    (∀ (a b c : Value) (o o' : Outcome), AppendsAfter [a, b] (fun m => [m, c]) o →
      AppendsAfter [b, c] (fun m => [a, m]) o' → o.Alike EvalError.SameFailure o') := by
  refine ⟨fun d => ⟨d.walked, Prelude.listLength_eq d, fun stamp => ?_⟩,
    fun d => ⟨d.walked, Sexp.ofList_of_isChain d.walked.chain⟩,
    fun i args => ?_, fun _ _ _ _ _ hmid => alike_of_appendsAfter hmid,
    fun _ _ _ _ _ => alike_of_associated⟩
  · have hlist := Value.isChain_list stamp d.elements (d.tail?.getD .nil)
    refine ⟨hlist, hlist.unlabelled_eq d.walked.chain,
      fun hxs he => d.walked.chain.equalBy hlist ?_ ?_⟩
    · intro x hx
      exact (Value.equal_self x).trans (by rw [hxs x hx]; rfl)
    · exact (Value.equal_self _).trans (by rw [he]; rfl)
  · obtain ⟨o, i', hends, ho⟩ := append_ends i args
    refine ⟨o, i', hends, ho, ho.error_iff.trans ?_⟩
    simp only [ProperButLast, Datum.isSome_tail?, not_forall, Bool.not_eq_true, Bool.not_eq_true',
      exists_prop]

end Scheme
