import Mathlib
import Scheme.Proofs.Expansion
import Scheme.Proofs.RoundTrip

/-!
# Templates and `append`

The quasiquotation of a list of items `,e` and `,@e`, perhaps with a tail `,e`, is the combination
of `append` with an argument `(list e)` for every item `,e`, an argument `e` for every item `,@e`,
and the tail or `'()`.  Without a bound on the depth the two expressions evaluate the same
expressions in the same stores: a template makes the label of a pair together with its first part,
as `list` does.  Only then do they differ: a template is put together along its pieces, and `append`
appends its arguments one after the other when all of them are there.

* `Item`, `Value.IsTemplate`, `Value.IsConcatenation`: the two expressions;
* `Store.MakesLists`, `Item.Keep`: the names of the expressions keep their meaning;
* `Scope.evaluation_combination`: a combination of a primitive, as an effect;
* `Prelude.appendFrom_eq`: appending from the last argument to the first makes one list;
* `Scope.evaluation_template`, `Scope.evaluation_concatenation`: both expressions evaluate the same
  pieces;
* `Value.isReflexive`: the values that are equal to values without a difference but for labels;
* `quasiquotation_concatenates`: the main result.
-/

namespace Scheme

/-! ### The two expressions -/

/-- An item of a template: the value of an expression, or the elements of its value. -/
inductive Item where
  | unquote (e : Value)
  | splice (e : Value)

namespace Item

/-- The form is the item as it stands in a template. -/
def IsForm : Item → Value → Prop
  | .unquote e, x => x.IsForm Keyword.unquote.name [e]
  | .splice e, x => x.IsForm Keyword.unquoteSplicing.name [e]

/-- The expression gives the list of what the item stands for. -/
def IsArgument : Item → Value → Prop
  | .unquote e, x => x.IsForm Primitive.list.name [e]
  | .splice e, x => x = e

/-- The expression that is evaluated for the item. -/
def operand : Item → Value
  | .unquote e => e
  | .splice e => e

/-- The store after the value of the item: a value makes a pair. -/
def after : Item → Store → Store
  | .unquote _, s => s.tick
  | .splice _, s => s

/-- The property holds of the store, and keeps to hold while the items are evaluated one after the
other. -/
def Keep (w : Scope) (holds : Store → Prop) : List Item → Store → Prop
  | [], s => holds s
  | item :: items, s => holds s ∧
      ∀ v s', w.evaluation item.operand s (.value v) s' → Keep w holds items (item.after s')

theorem Keep.holds {w : Scope} {holds : Store → Prop} {items : List Item} {s : Store}
    (h : Keep w holds items s) : holds s := by
  cases items with
  | nil => exact h
  | cons item items => exact h.1

end Item

namespace Value

/-- The template lists the items, before `()` or before a tail `,e`. -/
def IsTemplate : List Item → Option Value → Value → Prop
  | [], none, x => x = .nil
  | [], some e, x => x.IsForm Keyword.unquote.name [e]
  | item :: items, tail, x =>
    ∃ l form rest, x = .pair l form rest ∧ item.IsForm form ∧ IsTemplate items tail rest

/-- The expression gives the tail: it is `'()` if there is none. -/
def IsLast : Option Value → Value → Prop
  | none, x => x.IsQuotation .nil
  | some e, x => x = e

/-- The expression appends the lists of the items before the tail. -/
def IsConcatenation (items : List Item) (tail : Option Value) (x : Value) : Prop :=
  ∃ args last, x.IsForm Primitive.append.name (args ++ [last]) ∧
    List.Forall₂ Item.IsArgument items args ∧
    IsLast tail last

end Value

/-- In the frame, the names that the two expressions use have their first meaning. -/
structure Store.MakesLists (s : Store) (env : FrameId) : Prop where
  list : s.lookup env Primitive.list.name = .ok (.object (.primitive .list))
  append : s.lookup env Primitive.append.name = .ok (.object (.primitive .append))
  quote : s.Quotes env
  quasiquote : s.lookup env Keyword.quasiquote.name = .ok (.object (.keyword .quasiquote))

theorem Store.exists_find_of_lookup {s : Store} {env : FrameId} {name : String} {v : Value}
    (h : s.lookup env name = .ok v) : ∃ frame, s.find env name = some (frame, v) := by
  unfold Store.lookup at h
  split at h
  · rename_i frame v' hfind
    cases h
    exact ⟨frame, hfind⟩
  · cases h

/-! ### Combinations of primitives -/

theorem Config.endsIn_of_reaches {c c' : Config} (h : Config.Reaches .unbounded c c') (o : Outcome)
    (s : Store) :
    c.EndsIn o s ↔ c'.EndsIn o s :=
  exists_congr fun _ => and_congr_left fun _ => h.ends_iff

namespace Effect

/-- The effects are the same from a store, if the first parts are and what comes after their values
is. -/
theorem andThen_congr {m m' : Effect} {k k' : Value → Effect} {s : Store} (hm : m s = m' s)
    (hk : ∀ v s₁, m s (.value v) s₁ → k v s₁ = k' v s₁) : m.andThen k s = m'.andThen k' s := by
  funext o s'
  refine propext (exists_congr fun r => exists_congr fun s₁ => ?_)
  rw [← hm]
  refine and_congr_right fun hr => ?_
  cases r with
  | value v =>
    show k v s₁ o s' ↔ k' v s₁ o s'
    rw [hk v s₁ hr]
  | _ => exact Iff.rfl

end Effect

namespace Scope

open Effect

/-- The circumstances of an evaluation in a frame without a bound on the depth. -/
def free (env : FrameId) : Scope := ⟨.unbounded, 0, env⟩

/-- Evaluate expressions one after the other, and go on with their values. -/
def arguments (w : Scope) : List Value → (List Value → Effect) → Effect
  | [], k => k []
  | x :: xs, k => (w.evaluation x).andThen fun v => w.arguments xs fun vs => k (v :: vs)

variable {env : FrameId} {s s' : Store} {o : Outcome} {x v : Value} {head : String}
    {operands : List Value}

theorem endsIn_evalOperands_iff (control : Control) (depth : Nat) (f : Value)
    (before xs : List Value) :
    Config.EndsIn (Config.evalOperands ⟨control, [], depth, s⟩ f before xs env) o s' ↔
      (free env).arguments xs (fun vs => (free env).runs (.invoke f (before.reverse ++ vs)) [])
        s o s' := by
  induction xs generalizing control depth before s o s' with
  | nil =>
    simp only [arguments, List.append_nil]
    exact Config.endsIn_depth
  | cons x xs ih =>
    have hpass : ∀ t ∈ [Task.operand f before xs env], t.PassesErrors :=
      List.forall_mem_singleton.2 fun _ _ => rfl
    have hdepth : Config.EndsIn ⟨.enter x env, [.operand f before xs env], depth, s⟩ o s' ↔
        (free env).runs (.enter x env) [.operand f before xs env] s o s' := Config.endsIn_depth
    refine hdepth.trans ?_
    rw [runs_eq_andThen hpass]
    unfold arguments
    refine Eq.to_iff (congrFun (congrFun (andThen_congr rfl fun v s₁ _ => ?_) o) s')
    funext o s'
    refine propext (Config.endsIn_ret.trans ((ih (.ret v) 0 (v :: before)).trans ?_))
    simp only [List.reverse_cons, List.append_assoc, List.singleton_append]

/-- **A combination of a primitive** evaluates its operands one after the other and calls the
primitive. -/
theorem evaluation_combination {p : Primitive}
    (hp : s.lookup env head = .ok (.object (.primitive p))) (hx : x.IsForm head operands) :
    (free env).evaluation x s =
      (free env).arguments operands
        (fun vs => (free env).runs (.invoke (.object (.primitive p)) vs) []) s := by
  obtain ⟨frame, hfind⟩ := Store.exists_find_of_lookup hp
  have hnone : x.IsForm head ([] ++ operands) := hx
  have hfree : Settings.Allows .unbounded 0 := rfl
  funext o s'
  have hreaches : Config.Reaches .unbounded ⟨.eval x env, [], 0, s⟩
      (Config.evalOperands ⟨.ret (.object (.primitive p)), [], 0, s⟩
        (.object (.primitive p)) [] operands env) :=
    Config.reaches_operands hnone hfind rfl hfree (.nil s)
  have hends := Config.endsIn_of_reaches hreaches o s'
  exact propext
    (Config.endsIn_enter.trans (hends.trans (endsIn_evalOperands_iff _ 0 _ [] operands)))

theorem evaluation_quotation (hs : s.Quotes env) (hx : x.IsQuotation v) :
    (free env).evaluation x s = give v s := by
  funext o s'
  exact propext ((Config.endsIn_quotation hs hx).trans (Config.endsIn_of_outcome rfl))

/-- **A quasiquotation** expands its template. -/
theorem evaluation_quasiquotation {t : Value} (hs : s.MakesLists env)
    (hx : x.IsForm Keyword.quasiquote.name [t]) :
    (free env).evaluation x s = (free env).expansion 1 t s := by
  obtain ⟨frame, hfind⟩ := Store.exists_find_of_lookup hs.quasiquote
  obtain ⟨l, tail, rfl, htail⟩ := hx
  have hstep :
      Config.step .unbounded
        ⟨.eval (.pair l (.symbol Keyword.quasiquote.name) tail) env, [], 0, s⟩ =
      ⟨.expand t 1 env, [], 0, s⟩ := Config.step_keyword hfind htail
  have hreaches := Config.endsIn_of_reaches (Config.Reaches.single hstep)
  exact funext fun o => funext fun s' => propext (Config.endsIn_enter.trans (hreaches o s'))

/-- The primitive `list` makes a pair of one argument. -/
theorem runs_list (v : Value) : (free env).runs (.invoke (.object (.primitive .list)) [v]) [] =
    fresh fun stamp => give (.pair ⟨stamp, 0⟩ v .nil) :=
  funext fun _ => runs_of_ret rfl

end Scope

/-! ### Concatenation -/

namespace Effect

/-- The elements of lists before a value, all made at once. -/
def appended (lists : List Value) (t : Value) : Effect :=
  match Prelude.allElements lists with
  | .ok items => fresh fun stamp => give (Value.list stamp items t)
  | .error e => fail (e.named Primitive.append.name)

end Effect

/-- The items of two lists, the second with the indices that follow those of the first. -/
theorem Value.listFrom_append (stamp index : Nat) (items more : List Value) (t : Value) :
    listFrom stamp index (items ++ more) t =
      listFrom stamp index items (listFrom stamp (index + items.length) more t) := by
  induction items generalizing index with
  | nil => rfl
  | cons x items ih =>
    have hindex : index + 1 + items.length = index + (x :: items).length := by
      rw [List.length_cons, Nat.add_assoc, Nat.add_comm 1]
    rw [List.cons_append, listFrom, ih, listFrom, hindex]

namespace Prelude

/-- **Appending lists one after the other**, from the last to the first, makes one list of their
elements. -/
theorem appendFrom_eq (stamp index : Nat) (lists : List Value) (t : Value) :
    appendFrom stamp index lists t =
      ((allElements lists).map fun items =>
        Value.listFrom stamp index items t).mapError .error := by
  induction lists generalizing index with
  | nil => rfl
  | cons v lists ih =>
    rw [appendFrom, ih]
    cases hlists : allElements lists with
    | error e =>
      rw [allElements_cons_error hlists]
      rfl
    | ok more =>
      simp only [Except.map, Except.mapError, bind, Except.bind, append]
      cases hv : v.elements? with
      | none =>
        rw [allElements_cons_none hv hlists, Checked.elements_of_none hv]
        rfl
      | some items =>
        have hlen : v.length = items.length :=
          congrArg List.length (Option.some.inj (Option.ite_none_right_eq_some.1 hv).2)
        rw [allElements_cons_some hv hlists, Checked.elements_of_some hv, hlen]
        exact congrArg Except.ok (Value.listFrom_append stamp index items more t).symm

theorem appendLists_concat (stamp : Nat) (lists : List Value) (t : Value) :
    appendLists stamp (lists ++ [t]) =
      ((allElements lists).map fun items => Value.list stamp items t).mapError .error := by
  have hne : (lists ++ [t]).isEmpty = false := by simp
  have hlen : ((lists ++ [t]).length : Int) - 1 = (lists.length : Nat) := by simp
  have hlast : Checked.item (lists ++ [t]) (lists.length : Nat) = .ok t :=
    Checked.item_of_getElem? (by simp)
  have hbefore : Checked.slice (lists ++ [t]) 0 (lists.length : Nat) = .ok lists := by
    have hslice := @Checked.slice_of_le _ (lists ++ [t]) 0 lists.length (Nat.zero_le _) (by simp)
    exact hslice.trans (by simp)
  unfold appendLists
  rw [hne, hlen, hlast, hbefore]
  exact appendFrom_eq stamp 0 lists t

end Prelude

/-- A call of `append` gives the concatenation. -/
theorem Primitive.run_append (stamp : Nat) (args : List Value) :
    Primitive.append.shape.run stamp args = (Prelude.appendLists stamp args).map .give := by
  have hcount : (Arity.atLeast 0).accepts args.length = true :=
    (Arity.accepts_atLeast 0 _).2 (Nat.zero_le _)
  show (Shape.checkArity (.atLeast 0) args >>= fun _ => _) = _
  rw [Shape.checkArity_of_accepts hcount]
  show (Prelude.appendLists stamp args >>= fun v => _) = _
  cases Prelude.appendLists stamp args <;> rfl

namespace Scope

open Effect

variable {env : FrameId}

/-- The primitive `append` makes a list that shares its last argument. -/
theorem runs_append (lists : List Value) (t : Value) :
    (free env).runs (.invoke (.object (.primitive .append)) (lists ++ [t])) [] =
      appended lists t := by
  funext s
  have hrun : Primitive.append.shape.run s.clock (lists ++ [t]) =
      (((Prelude.allElements lists).map fun items =>
        Value.list s.clock items t).mapError .error).map .give := by
    rw [Primitive.run_append, Prelude.appendLists_concat]
  have hstep (c : Config) (hc : c.control = .invoke (.object (.primitive .append)) (lists ++ [t])) :
      c.step .unbounded = c.callPrimitive .append (lists ++ [t]) := by
    rw [Config.step, hc]
    rfl
  unfold appended
  cases hall : Prelude.allElements lists with
  | ok items =>
    refine runs_of_ret ((hstep _ rfl).trans ?_)
    rw [hall] at hrun
    unfold Config.callPrimitive
    rw [hrun]
    rfl
  | error e =>
    refine runs_of_fail ((hstep _ rfl).trans ?_)
    rw [hall] at hrun
    unfold Config.callPrimitive
    rw [hrun]
    rfl

end Scope

/-- The errors are the same but for the name of what failed. -/
def EvalError.SameButName (e e' : EvalError) : Prop := e' = { e with name := e'.name }

namespace Effect

/-- **Putting pieces together from the right and appending their lists** lead to the same. -/
theorem agree_appended (ps : List Piece) (t : Value) :
    Agree EvalError.SameButName (assembled ps t) (appended (ps.map Piece.list) t) := by
  refine agree_of_comesTo fun s => ?_
  have hassembled := comesTo_assembled ps t s
  unfold Assembles at hassembled
  unfold appended
  cases hall : Prelude.allElements (ps.map Piece.list) with
  | ok items =>
    simp only [hall] at hassembled
    let P (o : Outcome) : Prop :=
      ∃ v : Value, o = .value v ∧ v.spine = (items ++ t.spine.1, t.spine.2)
    have happended : (fresh fun stamp => give (Value.list stamp items t)).ComesTo s P :=
      ComesTo.fresh (comesTo_give ⟨_, rfl, Value.spine_list s.clock items t⟩ _)
    refine ⟨P, P, hassembled, happended, ?_⟩
    -- the same elements before the same end, in pairs with other labels
    rintro _ _ ⟨v, rfl, hv⟩ ⟨v', rfl, hv'⟩
    exact Datum.unlabelled_eq_of_spine (hv.trans hv'.symm)
  | error e =>
    simp only [hall] at hassembled
    let Q (o : Outcome) : Prop := o = .error (e.named Primitive.append.name)
    refine ⟨_, Q, hassembled, comesTo_fail (P := Q) rfl s, ?_⟩
    -- both blame the last list that is none, each under its own name
    rintro _ _ rfl rfl
    show EvalError.SameButName _ _
    unfold EvalError.SameButName EvalError.named
    split_ifs <;> rfl

end Effect

/-! ### Both expressions evaluate the same pieces -/

namespace Scope

open Effect

variable {env : FrameId} {items : List Item} {tail : Option Value} {s : Store}

/-- What the tail of a template comes to. -/
def ending (w : Scope) : Option Value → Effect
  | none => give .nil
  | some e => w.evaluation e

/-- A template lists the forms of its items. -/
theorem exists_listing {t : Value} (h : Value.IsTemplate items tail t) :
    ∃ forms last, List.Forall₂ Item.IsForm items forms ∧ Value.Listing forms last t ∧
      ∀ w : Scope, w.expansion 1 last = w.ending tail := by
  induction items generalizing t with
  | nil =>
    cases tail with
    | none => exact ⟨[], t, .nil, .nil t, fun w => h ▸ expansion_nil⟩
    | some e => exact ⟨[], t, .nil, .nil t, fun w => expansion_unquote_one h⟩
  | cons item items ih =>
    obtain ⟨l, form, rest, rfl, hform, hrest⟩ := h
    obtain ⟨forms, last, hforms, hlisting, hlast⟩ := ih hrest
    have hpair : ¬ Value.IsQuotationForm (.pair l form rest) := by
      cases item with
      | unquote e => exact Value.not_isQuotationForm_of_element hform
      | splice e => exact Value.not_isQuotationForm_of_element hform
    exact ⟨form :: forms, last, .cons hform hforms, .cons hpair hlisting, hlast⟩

/-- The evaluation of an argument `(list e)`. -/
theorem evaluation_list {x e : Value} (hs : s.MakesLists env)
    (hx : x.IsForm Primitive.list.name [e]) :
    (free env).evaluation x s =
      ((free env).evaluation e).andThen
        (fun v => fresh fun stamp => give (.pair ⟨stamp, 0⟩ v .nil)) s := by
  rw [evaluation_combination hs.list hx]
  simp only [arguments, runs_list]

theorem evaluation_last {last : Value} (hs : s.MakesLists env) (hlast : Value.IsLast tail last) :
    (free env).evaluation last s = (free env).ending tail s := by
  cases tail with
  | none => exact evaluation_quotation hs.quote hlast
  | some e =>
    obtain rfl : last = e := hlast
    rfl

theorem pieces_unquote (w : Scope) {e form : Value} (h : form.IsForm Keyword.unquote.name [e])
    (forms : List Value) (last : Effect) (k : List Piece → Value → Effect) :
    w.pieces 1 (form :: forms) last k =
      (w.evaluation e).andThen fun v => fresh fun stamp =>
        w.pieces 1 forms last fun ps => k (.item ⟨stamp, 0⟩ v :: ps) := by
  rw [pieces, Config.splice?_of_isForm_unquote h, element_of_isForm_unquote h,
    expansion_unquote_one h]

theorem pieces_splice (w : Scope) {e form : Value}
    (h : form.IsForm Keyword.unquoteSplicing.name [e]) (forms : List Value) (last : Effect)
    (k : List Piece → Value → Effect) : w.pieces 1 (form :: forms) last k =
      (w.evaluation e).andThen fun v => w.pieces 1 forms last fun ps => k (.splice v :: ps) := by
  rw [pieces, Config.splice?_of_isForm h]

/-- **The arguments of `append`** are evaluated as the elements of a template are expanded. -/
theorem arguments_eq_pieces {forms args : List Value} {last : Value}
    (hforms : List.Forall₂ Item.IsForm items forms)
    (hargs : List.Forall₂ Item.IsArgument items args) (hlast : Value.IsLast tail last)
    (hkeep : Item.Keep (free env) (·.MakesLists env) items s) (k : List Value → Effect) :
    (free env).arguments (args ++ [last]) k s =
      (free env).pieces 1 forms ((free env).ending tail)
        (fun ps t => k (ps.map Piece.list ++ [t])) s := by
  induction hforms generalizing args s k with
  | nil =>
    cases hargs
    exact andThen_congr (evaluation_last hkeep hlast) fun v s₁ _ => rfl
  | @cons item form items forms hform _ ih =>
    obtain ⟨arg, args, harg, hrest, rfl⟩ := List.forall₂_cons_left_iff.1 hargs
    obtain ⟨hs, hnext⟩ := hkeep
    rw [List.cons_append, arguments]
    cases item with
    | unquote e =>
      -- `list` takes the stamp that the template takes for its pair, so the next item starts in the
      -- same store
      rw [pieces_unquote _ hform, andThen_congr (evaluation_list hs harg) fun _ _ _ => rfl,
        andThen_assoc]
      refine andThen_congr rfl fun v s₁ hv => ?_
      rw [fresh_andThen]
      simp only [give_andThen]
      exact ih hrest (hnext v s₁ hv) fun vs => k (.pair ⟨s₁.clock, 0⟩ v .nil :: vs)
    | splice e =>
      obtain rfl : arg = e := harg
      rw [pieces_splice _ hform]
      exact andThen_congr rfl fun v s₁ hv => ih hrest (hnext v s₁ hv) fun vs => k (v :: vs)

/-- **The quasiquotation of a template** evaluates the items and puts their pieces together. -/
theorem evaluation_template (tail : Option Value) {t q last : Value} {forms : List Value}
    (hlisting : Value.Listing forms last t)
    (hlast : (free env).expansion 1 last = (free env).ending tail)
    (hq : q.IsForm Keyword.quasiquote.name [t]) (hs : s.MakesLists env) :
    (free env).evaluation q s = (free env).pieces 1 forms ((free env).ending tail) assembled s := by
  rw [evaluation_quasiquotation hs hq, expansion_listing hlisting, hlast]

/-- **The combination of `append`** evaluates the same items and appends their lists. -/
theorem evaluation_concatenation {a : Value} {forms : List Value}
    (hforms : List.Forall₂ Item.IsForm items forms) (ha : a.IsConcatenation items tail)
    (hkeep : Item.Keep (free env) (·.MakesLists env) items s) :
    (free env).evaluation a s = (free env).pieces 1 forms ((free env).ending tail)
      (fun ps t => appended (ps.map Piece.list) t) s := by
  obtain ⟨args, last, hform, hargs, hlast⟩ := ha
  rw [evaluation_combination hkeep.holds.append hform, arguments_eq_pieces hforms hargs hlast hkeep]
  simp only [runs_append]

/-- Both evaluations end alike. -/
theorem exists_agree {t q a : Value} (ht : t.IsTemplate items tail)
    (hq : q.IsForm Keyword.quasiquote.name [t]) (ha : a.IsConcatenation items tail)
    (hkeep : Item.Keep (free env) (·.MakesLists env) items s) :
    ∃ m m', (free env).evaluation q s = m s ∧ (free env).evaluation a s = m' s ∧
      Agree EvalError.SameButName m m' := by
  obtain ⟨forms, last, hforms, hlisting, hlast⟩ := exists_listing ht
  refine ⟨_, _, evaluation_template tail hlisting (hlast _) hq hkeep.holds,
    evaluation_concatenation hforms ha hkeep, ?_⟩
  have hrefl (e : EvalError) : EvalError.SameButName e e := rfl
  exact Agree.pieces hrefl forms _ agree_appended

end Scope

/-! ### Equality of values that are the same but for labels -/

namespace Number

theorem same_self {n : Number} (h : n.isNaNFree = true) : n.same n = true := by
  cases n with
  | exact z => exact decide_eq_true rfl
  | inexact z =>
    simp only [isNaNFree, Bool.and_eq_true, Bool.not_eq_true'] at h
    rw [same, Binary64.beq_self h.1, Binary64.beq_self h.2]
    rfl

end Number

namespace Datum

variable {ι ξ : Type} {same : ι → ι → Bool} {sameObject : ξ → ξ → Bool}

mutual

/-- No number of the datum has a NaN as a part, and every object in it is the same as itself. -/
def isReflexive (sameObject : ξ → ξ → Bool) : Datum ι ξ → Bool
  | .number n => n.isNaNFree
  | .object x => sameObject x x
  | .pair _ car cdr => isReflexive sameObject car && isReflexive sameObject cdr
  | .vector _ items => areReflexive sameObject items
  | _ => true

/-- The data have only such numbers and objects in them. -/
def areReflexive (sameObject : ξ → ξ → Bool) : List (Datum ι ξ) → Bool
  | [] => true
  | x :: xs => isReflexive sameObject x && areReflexive sameObject xs

end

mutual

theorem equalBy_of_unlabelled : (d d' : Datum ι ξ) → d.unlabelled = d'.unlabelled →
    d.isReflexive sameObject = true → equalBy same sameObject d d' = true
  | .pair _ a d, .pair _ a' d', h, hself => by
    simp only [unlabelled, pair.injEq, true_and] at h
    rw [isReflexive, Bool.and_eq_true] at hself
    rw [equalBy, equalBy_of_unlabelled a a' h.1 hself.1, equalBy_of_unlabelled d d' h.2 hself.2]
    exact Bool.or_true _
  | .vector _ xs, .vector _ ys, h, hself => by
    simp only [unlabelled, vector.injEq, true_and] at h
    rw [isReflexive] at hself
    rw [equalBy]
    exact equalItems_of_unlabelled xs ys h hself
  | .bytes _ xs, .bytes _ ys, h, _ => by
    simp only [unlabelled, bytes.injEq, true_and] at h
    rw [equalBy, h]
    exact beq_self_eq_true ys
  | .symbol s, .symbol _, h, _ => by
    cases h
    exact beq_self_eq_true s
  | .boolean b, .boolean _, h, _ => by
    cases h
    exact beq_self_eq_true b
  | .char c, .char _, h, _ => by
    cases h
    exact beq_self_eq_true c
  | .string s, .string _, h, _ => by
    cases h
    exact beq_self_eq_true s
  | .number n, .number _, h, hself => by
    cases h
    exact Number.same_self hself
  | .nil, .nil, _, _ => rfl
  | .object x, .object _, h, hself => by
    cases h
    exact hself

theorem equalItems_of_unlabelled : (xs ys : List (Datum ι ξ)) →
    unlabelledItems xs = unlabelledItems ys → areReflexive sameObject xs = true →
      equalItems same sameObject xs ys = true
  | [], [], _, _ => rfl
  | x :: xs, y :: ys, h, hself => by
    simp only [unlabelledItems, List.cons.injEq] at h
    rw [areReflexive, Bool.and_eq_true] at hself
    rw [equalItems, equalBy_of_unlabelled x y h.1 hself.1,
      equalItems_of_unlabelled xs ys h.2 hself.2]
    rfl

end

end Datum

/-- No number of the value has a NaN as a part, and every object in it is equal to itself. -/
abbrev Value.isReflexive (v : Value) : Bool := Datum.isReflexive Object.sameValue v

/-- **Values that are the same but for labels are equal**, unless a number in them has a NaN as a
part or an object in them is not equal to itself. -/
theorem Value.equal_of_unlabelled {v v' : Value} (h : v.unlabelled = v'.unlabelled)
    (hv : v.isReflexive = true) : v.equal v' = true :=
  Datum.equalBy_of_unlabelled v v' h hv

/-! ### The main result -/

/-- The ends of two evaluations: values that are the same but for labels, and equal unless a number
in them has a NaN as a part or an object in them is not equal to itself, or errors that are the same
but for the name of what failed; the same frames, closures and output. -/
structure EndAlike (o o' : Outcome) (i i' : Interpreter) : Prop where
  outcome : o.Alike EvalError.SameButName o'
  equal : ∀ v v', o = .value v → o' = .value v' → v.isReflexive = true → v.equal v' = true
  frames : i'.store.frames = i.store.frames
  closures : i'.store.closures = i.store.closures
  output : i'.store.output = i.store.output

/-- Only the journal shows that a failure was reported. -/
theorem Store.reporting_eq (s : Store) (x : Value) (o : Outcome) :
    s.reporting x o = { s with journal := (s.reporting x o).journal } := by
  cases o <;> rfl

theorem Store.SameButClock.endAlike {s s' : Store} (h : s.SameButClock s') {o o' : Outcome}
    (ho : o.Alike EvalError.SameButName o') (settings : Settings) (x x' : Value) :
    EndAlike o o' ⟨settings, s.reporting x o⟩ ⟨settings, s'.reporting x' o'⟩ := by
  have hequal (v v' : Value) (hv : o = .value v) (hv' : o' = .value v')
      (hself : v.isReflexive = true) :
      v.equal v' = true := by
    subst hv hv'
    exact Value.equal_of_unlabelled ho hself
  rw [s.reporting_eq x o, s'.reporting_eq x' o', h]
  exact ⟨ho, hequal, rfl, rfl, rfl⟩

theorem Interpreter.evaluatesTo_iff_evaluation {i i' : Interpreter} {o : Outcome}
    (hi : i.settings.limit = none) {x : Value} {env : FrameId} : i.EvaluatesTo x env o i' ↔
      ∃ s, (Scope.free env).evaluation x i.store o s ∧ i' = ⟨i.settings, s.reporting x o⟩ := by
  rw [evaluatesTo_iff_endsIn hi]
  simp only [Config.endsIn_report]
  constructor
  · rintro ⟨_, ⟨_, s, hrun, rfl, rfl⟩, rfl⟩
    exact ⟨s, hrun, rfl⟩
  · rintro ⟨s, hrun, rfl⟩
    exact ⟨_, ⟨o, s, hrun, rfl, rfl⟩, rfl⟩

/-- **The quasiquotation of a list of items ends as the combination of `append` does.**  The
evaluation of one expression ends if and only if that of the other does, and they end alike: no
depth is bound, and the names `list`, `append`, `quote` and `quasiquote` have their first meaning
and keep it while the items are evaluated. -/
theorem quasiquotation_concatenates {i : Interpreter} (hi : i.settings.limit = none) {env : FrameId}
    {items : List Item} {tail : Option Value} {t q a : Value} (ht : t.IsTemplate items tail)
    (hq : q.IsForm Keyword.quasiquote.name [t]) (ha : a.IsConcatenation items tail)
    (hkeep : Item.Keep (.free env) (·.MakesLists env) items i.store) :
    (∀ o i₁, i.EvaluatesTo q env o i₁ → ∃ o' i₂, i.EvaluatesTo a env o' i₂ ∧ EndAlike o o' i₁ i₂) ∧
      ∀ o' i₂, i.EvaluatesTo a env o' i₂ → ∃ o i₁, i.EvaluatesTo q env o i₁ ∧
        EndAlike o o' i₁ i₂ := by
  obtain ⟨m, m', hm, hm', hagree⟩ := Scope.exists_agree ht hq ha hkeep
  simp only [Interpreter.evaluatesTo_iff_evaluation hi, hm, hm']
  constructor
  · rintro o _ ⟨s, hrun, rfl⟩
    obtain ⟨o', s', hrun', halike, hsame⟩ := (hagree i.store).1 o s hrun
    exact ⟨o', _, ⟨s', hrun', rfl⟩, hsame.endAlike halike i.settings q a⟩
  · rintro o' _ ⟨s', hrun', rfl⟩
    obtain ⟨o, s, hrun, halike, hsame⟩ := (hagree i.store).2 o' s' hrun'
    exact ⟨o, _, ⟨s, hrun, rfl⟩, hsame.endAlike halike i.settings q a⟩

theorem Store.makesLists_of_global {s : Store}
    (h : s.frames[Store.global]? = some ⟨none, Store.initialBindings⟩) :
    s.MakesLists Store.global := by
  have hlookup {name : String} {v : Value}
      (hv : Bindings.get? Store.initialBindings name = some v) :
      s.lookup Store.global name = .ok v := by
    rw [Store.lookup, Store.find, h]
    simp only [hv]
  exact ⟨hlookup (get?_initialBindings_primitive .list),
    hlookup (get?_initialBindings_primitive .append),
    hlookup (get?_initialBindings_keyword .quote),
    hlookup (get?_initialBindings_keyword .quasiquote)⟩

/-- The template `(,#t ,@'(a b) . ,#f)` gives `(#t a b . #f)`, and so does
`(append (list #t) '(a b) #f)`. -/
theorem quasiquotation_concatenates_tail :
    let i := Interpreter.start 0 false
    let e := Value.list 0 [.symbol "quote", Value.list 1 [.symbol "a", .symbol "b"] .nil] .nil
    let t := Value.list 2 [Value.list 3 [.symbol "unquote", .boolean true] .nil,
      Value.list 4 [.symbol "unquote-splicing", e] .nil]
        (Value.list 5 [.symbol "unquote", .boolean false] .nil)
    let q := Value.list 6 [.symbol "quasiquote", t] .nil
    let a := Value.list 7 [.symbol "append", Value.list 8 [.symbol "list", .boolean true] .nil, e,
      .boolean false] .nil
    ∃ v v' i₁ i₂, i.EvaluatesTo q Store.global (.value v) i₁ ∧
      i.EvaluatesTo a Store.global (.value v') i₂ ∧
      v.write = "(#t a b . #f)" ∧ v.equal v' = true := by
  intro i e t q a
  have hs : i.store.MakesLists Store.global := Store.makesLists_of_global rfl
  have hs' : i.store.tick.MakesLists Store.global := Store.makesLists_of_global rfl
  have hconstant (b : Bool) : (Scope.free Store.global).evaluation (.boolean b) =
      Effect.give (.boolean b) :=
    Scope.evaluation_constant rfl nofun nofun nofun
  have he : (Scope.free Store.global).evaluation e i.store.tick =
      Effect.give (Value.list 1 [.symbol "a", .symbol "b"] .nil) i.store.tick :=
    Scope.evaluation_quotation hs'.quote ⟨_, _, rfl⟩
  have ht : t.IsTemplate [.unquote (.boolean true), .splice e] (some (.boolean false)) :=
    ⟨_, _, _, rfl, ⟨_, _, rfl, rfl⟩, _, _, _, rfl, ⟨_, _, rfl, rfl⟩, _, _, rfl, rfl⟩
  have hq : q.IsForm Keyword.quasiquote.name [t] := ⟨_, _, rfl, rfl⟩
  have ha : a.IsConcatenation [.unquote (.boolean true), .splice e] (some (.boolean false)) :=
    ⟨[_, _], _, ⟨_, _, rfl, rfl⟩, .cons ⟨_, _, rfl, rfl⟩ (.cons rfl .nil), rfl⟩
  have hkeep : Item.Keep (.free Store.global) (·.MakesLists Store.global)
      [.unquote (.boolean true), .splice e]
      i.store := by
    refine ⟨hs, fun v s hv => ?_⟩
    rw [Item.operand, hconstant] at hv
    obtain ⟨-, rfl⟩ := hv
    refine ⟨hs', fun v s hv => ?_⟩
    have hv' : (Scope.free Store.global).evaluation e i.store.tick (.value v) s := hv
    rw [he] at hv'
    obtain ⟨-, rfl⟩ := hv'
    exact hs'
  have hunquote : (Value.list 3 [.symbol "unquote", .boolean true] .nil).IsForm Keyword.unquote.name
      [.boolean true] := ⟨_, _, rfl, rfl⟩
  have hsplice :
      (Value.list 4 [.symbol "unquote-splicing", e] .nil).IsForm Keyword.unquoteSplicing.name [e] :=
    ⟨_, _, rfl, rfl⟩
  have hlast : (Value.list 5 [.symbol "unquote", .boolean false] .nil).IsForm Keyword.unquote.name
      [.boolean false] := ⟨_, _, rfl, rfl⟩
  have hrun : i.EvaluatesTo q Store.global
      (.value
        (.pair ⟨0, 0⟩ (.boolean true) (Value.list 1 [.symbol "a", .symbol "b"] (.boolean false))))
      ⟨i.settings, i.store.tick.tick⟩ := by
    rw [Interpreter.evaluatesTo_iff_evaluation rfl]
    refine ⟨_, ?_, rfl⟩
    have hlisting : Value.Listing _ _ t := .cons (Value.not_isQuotationForm_of_element hunquote)
      (.cons (Value.not_isQuotationForm_of_element hsplice) (.nil _))
    rw [Scope.evaluation_template (some (.boolean false)) hlisting
      (Scope.expansion_unquote_one hlast) hq hs,
      Scope.pieces_unquote _ hunquote, hconstant, Effect.give_andThen]
    simp only [Scope.pieces_splice _ hsplice]
    show (((Scope.free Store.global).evaluation e).andThen _) i.store.tick _ _
    rw [Effect.andThen_congr he fun _ _ _ => rfl, Effect.give_andThen]
    simp only [Scope.pieces, Scope.ending, hconstant, Effect.assembled, Effect.give_andThen]
    exact ⟨_, _, ⟨rfl, rfl⟩, rfl, rfl⟩
  obtain ⟨o', i₂, hrun', hend⟩ := (quasiquotation_concatenates rfl ht hq ha hkeep).1 _ _ hrun
  have houtcome := hend.outcome
  cases o' with
  | value v' => exact ⟨_, v', _, i₂, hrun, hrun', rfl, hend.equal _ _ rfl rfl rfl⟩
  | _ => cases houtcome

/-- `` `(,x) `` -/
def Value.ofTemplate (x : Value) : Value :=
  Value.list 2
    [.symbol "quasiquote", Value.list 0 [Value.list 1 [.symbol "unquote", x] .nil] .nil] .nil

/-- `(append (list x) '())` -/
def Value.ofConcatenation (x : Value) : Value :=
  Value.list 3 [.symbol "append", Value.list 4 [.symbol "list", x] .nil,
    Value.list 5 [.symbol "quote", .nil] .nil] .nil

/-- Both make a new pair of a value that evaluates to itself. -/
theorem exists_evaluatesTo_one {x : Value}
    (hx : (Scope.free Store.global).evaluation x = Effect.give x) :
    ∃ i₁ i₂, (Interpreter.start 0 false).EvaluatesTo x.ofTemplate Store.global
        (.value (.pair ⟨0, 0⟩ x .nil)) i₁ ∧
      (Interpreter.start 0 false).EvaluatesTo x.ofConcatenation Store.global
        (.value (.pair ⟨1, 0⟩ x .nil)) i₂ := by
  let s := (Interpreter.start 0 false).store
  have hs : s.MakesLists Store.global := Store.makesLists_of_global rfl
  have hform : (Value.list 1 [.symbol "unquote", x] .nil).IsForm Keyword.unquote.name [x] :=
    ⟨_, _, rfl, rfl⟩
  have hlisting :
      Value.Listing _ _ (Value.list 0 [Value.list 1 [.symbol "unquote", x] .nil] .nil) :=
    .cons (Value.not_isQuotationForm_of_element hform) (.nil _)
  have hq : x.ofTemplate.IsForm Keyword.quasiquote.name [_] := ⟨_, _, rfl, rfl⟩
  have ha : x.ofConcatenation.IsConcatenation [.unquote x] none :=
    ⟨[_], _, ⟨_, _, rfl, rfl⟩, .cons ⟨_, _, rfl, rfl⟩ .nil, _, _, rfl⟩
  have hkeep : Item.Keep (.free Store.global) (·.MakesLists Store.global) [.unquote x] s := by
    refine ⟨hs, fun v s' hv => ?_⟩
    rw [Item.operand, hx] at hv
    obtain ⟨-, rfl⟩ := hv
    exact Store.makesLists_of_global rfl
  have htemplate : (Scope.free Store.global).evaluation x.ofTemplate s
      (.value (.pair ⟨0, 0⟩ x .nil))
      s.tick := by
    rw [Scope.evaluation_template none hlisting Scope.expansion_nil hq hs,
      Scope.pieces_unquote _ hform,
      hx, Effect.give_andThen]
    simp only [Scope.pieces, Scope.ending, Effect.assembled, Effect.give_andThen]
    exact ⟨rfl, rfl⟩
  have hforms : List.Forall₂ Item.IsForm [.unquote x] [Value.list 1 [.symbol "unquote", x] .nil] :=
    .cons hform .nil
  have hconcatenation : (Scope.free Store.global).evaluation x.ofConcatenation s
      (.value (.pair ⟨1, 0⟩ x .nil)) s.tick.tick := by
    rw [Scope.evaluation_concatenation hforms ha hkeep, Scope.pieces_unquote _ hform, hx,
      Effect.give_andThen]
    simp only [Scope.pieces, Scope.ending, Effect.give_andThen]
    exact ⟨rfl, rfl⟩
  exact ⟨_, _, (Interpreter.evaluatesTo_iff_evaluation rfl).2 ⟨_, htemplate, rfl⟩,
    (Interpreter.evaluatesTo_iff_evaluation rfl).2 ⟨_, hconcatenation, rfl⟩⟩

/-- The template `(,+nan.0)` and `(append (list +nan.0) '())` give values that are not equal: each
is a new pair with a NaN in it.  So it is with a value of the host language that cannot be
compared. -/
theorem quasiquotation_not_equal :
    let i := Interpreter.start 0 false
    let nan : Value := .number (.inexact ⟨Binary64.notANumber, 0⟩)
    let host : Value := .object (.host ⟨⟨"list", false⟩, 0, true, none⟩)
    (∃ v v' i₁ i₂, i.EvaluatesTo nan.ofTemplate Store.global (.value v) i₁ ∧
      i.EvaluatesTo nan.ofConcatenation Store.global (.value v') i₂ ∧ v.equal v' = false) ∧
    ∃ v v' i₁ i₂, i.EvaluatesTo host.ofTemplate Store.global (.value v) i₁ ∧
      i.EvaluatesTo host.ofConcatenation Store.global (.value v') i₂ ∧ v.equal v' = false := by
  intro i nan host
  obtain ⟨i₁, i₂, hq, ha⟩ :=
    exists_evaluatesTo_one (x := nan) (Scope.evaluation_constant rfl nofun nofun nofun)
  obtain ⟨i₃, i₄, hq', ha'⟩ :=
    exists_evaluatesTo_one (x := host) (Scope.evaluation_constant rfl nofun nofun nofun)
  exact ⟨⟨_, _, i₁, i₂, hq, ha, by decide +kernel⟩, _, _, i₃, i₄, hq', ha', by decide +kernel⟩

end Scheme
