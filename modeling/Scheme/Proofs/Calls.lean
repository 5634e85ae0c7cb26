import Mathlib
import Scheme.Proofs.Composition
import Scheme.Proofs.Primitives

/-!
# Three ways of calling

A procedure is called by the evaluation of a combination, by an interpreter, or by the primitive
`apply`.  The first way evaluates the last form of a body in place of the call, the others evaluate
all forms nested, and the last gives its name to an error that has none.  Without a bound on the
depth the three ways lead to the same end otherwise.

* `Task.IsIdle`: tasks that hand on what they get;
* `Config.endsIn_evalForms`: a body with its last form in tail position, and with all forms nested;
* `Config.endsIn_invoke`: the two ways to call a closure;
* `Value.IsQuotation`, `Value.IsCall`: combinations with quoted arguments;
* `Config.endsIn_call`: the evaluation of such a combination;
* `calls_agree`: the main result.
-/

namespace Scheme

/-! ### Nested evaluations -/

/-- Tasks that hand on what they get. -/
inductive Task.IsIdle : Task → Prop where
  | leave : IsIdle .leave
  | body (env : FrameId) : IsIdle (.body [] env)

namespace Config

variable {control : Control} {tasks : List Task} {task : Task} {depth : Nat} {s s' : Store}
variable {o : Outcome} {env : FrameId} {x f v : Value} {forms args : List Value}

theorem endsIn_idle (h : task.IsIdle) :
    EndsIn ⟨control, task :: tasks, depth, s⟩ o s' ↔ EndsIn ⟨control, tasks, depth, s⟩ o s' := by
  refine endsIn_congr (fun v s₁ => ?_) (fun e s₁ => ?_)
  · rw [endsIn_ret]
    cases h with
    | leave => exact endsIn_depth
    | body env => exact Iff.rfl
  · rw [endsIn_fail]
    cases h with
    | leave => exact endsIn_depth
    | body env => exact Iff.rfl

/-- A nested evaluation ends as one at the current depth. -/
theorem endsIn_enter :
    EndsIn ⟨.enter x env, tasks, depth, s⟩ o s' ↔ EndsIn ⟨.eval x env, tasks, depth, s⟩ o s' := by
  have hstep : step .unbounded ⟨.enter x env, tasks, depth, s⟩ =
      ⟨.eval x env, .leave :: tasks, depth + 1, s⟩ :=
    enterStep_of_allows (c := ⟨.enter x env, tasks, depth, s⟩)
      (Settings.allows_unbounded depth) x env
  rw [← endsIn_step, hstep]
  exact (endsIn_idle .leave).trans endsIn_depth

/-! ### Bodies -/

/-- **A body with its last form in tail position** ends as with all its forms nested. -/
theorem endsIn_evalForms (h : forms ≠ []) :
    EndsIn (evalForms ⟨control, tasks, depth, s⟩ forms env) o s' ↔
    EndsIn (evalBody ⟨control, tasks, depth, s⟩ forms env) o s' := by
  induction forms generalizing control depth s with
  | nil => exact absurd rfl h
  | cons x rest ih =>
    cases rest with
    | nil =>
      -- the last form: nested, it is only followed by tasks that hand on its outcome
      exact endsIn_enter.symm.trans (endsIn_idle (.body env)).symm
    | cons y rest =>
      show EndsIn ⟨.enter x env, .forms (y :: rest) env :: tasks, depth, s⟩ o s' ↔
        EndsIn ⟨.enter x env, .body (y :: rest) env :: tasks, depth, s⟩ o s'
      refine endsIn_congr (fun v s₁ => ?_) (fun e s₁ => ?_)
      · rw [endsIn_ret, endsIn_ret]
        exact ih nofun
      · rw [endsIn_fail, endsIn_fail]
        rfl

theorem endsIn_callClosure {id : Nat} {name : String} :
    EndsIn (callClosure ⟨control, tasks, depth, s⟩ id name args evalForms) o s' ↔
      EndsIn (callClosure ⟨control, tasks, depth, s⟩ id name args evalBody) o s' := by
  unfold callClosure
  simp only
  cases s.closures[id]? with
  | none => rfl
  | some closure =>
    simp only
    cases s.bindParameters name closure.params args with
    | error failure => rfl
    | ok b =>
      simp only
      split_ifs with hempty
      · rfl
      · exact endsIn_evalForms (by simpa using hempty)

/-- **A call with the last form of a body in tail position** ends as one with all its forms
nested. -/
theorem endsIn_invoke (hf : f.isProcedure = true) : EndsIn ⟨.invoke f args, tasks, depth, s⟩ o s' ↔
    EndsIn ⟨.apply f args, tasks, depth, s⟩ o s' := by
  refine endsIn_step.symm.trans (Iff.trans ?_ endsIn_step)
  show EndsIn (call _ f args evalForms (throw · (.panic (.assertion "procedure")))) o s' ↔
    EndsIn (call _ f args evalBody (fail · (.notCallable f.write))) o s'
  rw [(uniform_apply f args).congr_control (.apply f args) (.invoke f args)]
  unfold call
  split
  · rfl
  · exact endsIn_callClosure
  · cases f with
    | object x => cases x <;> simp_all [Value.isProcedure]
    | _ => cases hf

end Config

/-! ### Combinations with quoted arguments -/

/-- A list with a first element is a pair of it and the list of the others. -/
theorem Datum.exists_of_elements? {ι ξ : Type} {d a : Datum ι ξ} {rest : List (Datum ι ξ)}
    (h : d.elements? = some (a :: rest)) :
    ∃ l tail, d = .pair l a tail ∧ tail.elements? = some rest := by
  simp only [Datum.elements?, Option.ite_none_right_eq_some, Option.some.injEq] at h
  obtain ⟨hnil, hitems⟩ := h
  cases d with
  | pair l car cdr =>
    obtain ⟨rfl, rfl⟩ := List.cons.inj hitems
    exact ⟨l, cdr, rfl, if_pos hnil⟩
  | _ => cases hitems

/-- The symbol `quote` denotes its special form in the frame. -/
def Store.Quotes (s : Store) (env : FrameId) : Prop :=
  s.lookup env Keyword.quote.name = .ok (.object (.keyword .quote))

namespace Value

/-- The expression is a quotation of the value. -/
def IsQuotation (x v : Value) : Prop :=
  ∃ l l', x = .pair l (.symbol Keyword.quote.name) (.pair l' v .nil)

/-- The expression is a combination of the procedure with quoted arguments. -/
def IsCall (x f : Value) (args : List Value) : Prop :=
  ∃ operands, x.elements? = some (f :: operands) ∧ List.Forall₂ IsQuotation operands args

end Value

namespace Config

variable {control : Control} {tasks : List Task} {depth : Nat} {s s' : Store}
variable {o : Outcome} {env : FrameId} {x f v : Value} {operands args : List Value}

theorem headKeyword?_quote (h : s.Quotes env) :
    headKeyword? ⟨control, tasks, depth, s⟩ (.symbol Keyword.quote.name) env = some .quote := by
  unfold Store.Quotes Store.lookup at h
  unfold headKeyword?
  simp only
  cases hfind : s.find env Keyword.quote.name with
  | none =>
    rw [hfind] at h
    cases h
  | some found =>
    obtain ⟨frame, v⟩ := found
    rw [hfind] at h
    obtain rfl : v = .object (.keyword .quote) := Except.ok.inj h
    rfl

theorem endsIn_quotation (hs : s.Quotes env) (hx : x.IsQuotation v) :
    EndsIn ⟨.enter x env, tasks, depth, s⟩ o s' ↔ EndsIn ⟨.ret v, tasks, depth, s⟩ o s' := by
  obtain ⟨l, l', rfl⟩ := hx
  rw [endsIn_enter, endsIn_eval]
  show EndsIn (evalForm _ _ (.symbol Keyword.quote.name) (.pair l' v .nil) env) o s' ↔ _
  unfold evalForm
  rw [headKeyword?_quote hs]
  rfl

/-- Quoted arguments are handed to the procedure as they are. -/
theorem endsIn_evalOperands (hs : s.Quotes env) (h : List.Forall₂ Value.IsQuotation operands args)
    (before : List Value) :
    EndsIn (evalOperands ⟨control, tasks, depth, s⟩ f before operands env) o s' ↔
      EndsIn ⟨.invoke f (before.reverse ++ args), tasks, depth, s⟩ o s' := by
  induction h generalizing control before with
  | nil =>
    rw [List.append_nil]
    rfl
  | @cons x v operands args hx _ ih =>
    show EndsIn ⟨.enter x env, .operand f before operands env :: tasks, depth, s⟩ o s' ↔ _
    rw [endsIn_quotation hs hx, endsIn_ret]
    show EndsIn (evalOperands _ f (v :: before) operands env) o s' ↔ _
    rw [ih, List.reverse_cons, List.append_assoc]
    rfl

/-- **The evaluation of a combination with quoted arguments** ends as the call of its procedure. -/
theorem endsIn_call (hs : s.Quotes env) (hf : f.isProcedure = true) (hx : x.IsCall f args) :
    EndsIn ⟨.enter x env, tasks, depth, s⟩ o s' ↔ EndsIn ⟨.apply f args, tasks, depth, s⟩ o s' := by
  obtain ⟨operands, hitems, hoperands⟩ := hx
  obtain ⟨l, tail, rfl, htail⟩ := Datum.exists_of_elements? hitems
  -- the procedure is an object, so it is no special form and evaluates to itself
  obtain ⟨object, rfl⟩ : ∃ object, f = .object object := by
    cases f with
    | object object => exact ⟨object, rfl⟩
    | _ => cases hf
  rw [endsIn_enter, endsIn_eval]
  show EndsIn ⟨.enter (.object object) env, .operator _ tail env :: tasks, depth, s⟩ o s' ↔ _
  rw [endsIn_enter, endsIn_eval]
  show EndsIn ⟨.ret (.object object), .operator _ tail env :: tasks, depth, s⟩ o s' ↔ _
  rw [endsIn_ret, resume, if_pos hf, htail, ← endsIn_invoke hf]
  exact endsIn_evalOperands hs hoperands []

end Config

/-! ### The three ways -/

/-- The outcome, with the given name for an error that has none. -/
def Outcome.named (name : String) : Outcome → Outcome
  | .error e => .error (e.named name)
  | o => o

/-- The store after an evaluation: a failure is recorded. -/
def Store.reporting (s : Store) (x : Value) : Outcome → Store
  | .error e => s.record (.failure x.write e.message)
  | _ => s

namespace Config

variable {control : Control} {depth : Nat} {s s' : Store} {o : Outcome}

/-- A last task that makes an outcome and a store of those it gets. -/
theorem endsIn_last {task : Task} {g : Outcome → Outcome} {t : Outcome → Store → Store}
    (h : ∀ r s₁, r ≠ .unfinished →
      (EndsIn ⟨r.control, [task], 0, s₁⟩ o s' ↔ o = g r ∧ s' = t r s₁)) :
    EndsIn ⟨control, [task], depth, s⟩ o s' ↔
      ∃ r s₁, EndsIn ⟨control, [], 0, s⟩ r s₁ ∧ o = g r ∧ s' = t r s₁ := by
  rw [endsIn_iff]
  exact exists_congr fun r => exists_congr fun s₁ => and_congr_right fun hrun =>
    h r s₁ hrun.ne_unfinished

theorem endsIn_report {x : Value} : EndsIn ⟨control, [.report x], depth, s⟩ o s' ↔
    ∃ r s₁, EndsIn ⟨control, [], 0, s⟩ r s₁ ∧ o = r ∧ s' = s₁.reporting x r := by
  refine endsIn_last fun r s₁ hr => ?_
  cases r with
  | value v => exact endsIn_ret.trans (endsIn_of_outcome rfl)
  | error e => exact endsIn_fail.trans (endsIn_of_outcome rfl)
  | stuck b => exact endsIn_stuck
  | unfinished => exact absurd rfl hr

theorem endsIn_named {name : String} : EndsIn ⟨control, [.named name], depth, s⟩ o s' ↔
    ∃ r s₁, EndsIn ⟨control, [], 0, s⟩ r s₁ ∧ o = r.named name ∧ s' = s₁ := by
  refine endsIn_last fun r s₁ hr => ?_
  cases r with
  | value v => exact endsIn_ret.trans (endsIn_of_outcome rfl)
  | error e => exact endsIn_fail.trans (endsIn_of_outcome rfl)
  | stuck b => exact endsIn_stuck
  | unfinished => exact absurd rfl hr

/-- The primitive `apply` calls the procedure with the arguments before the list and those in it. -/
theorem run_apply (stamp : Nat) (f : Value) (before after : List Value) {rest : Value}
    (h : rest.elements? = some after) :
    Primitive.apply.shape.run stamp (f :: (before ++ [rest])) =
      .ok (.call f (before ++ after)) := by
  have hcount : (Arity.atLeast 2).accepts (f :: (before ++ [rest])).length = true :=
    (Arity.accepts_atLeast 2 _).2 (by simp)
  have hlen : ((f :: (before ++ [rest])).length : Int) - 1 = (before.length + 1 : Nat) := by simp
  have hlast : Checked.item (f :: (before ++ [rest])) (before.length + 1 : Nat) = .ok rest :=
    Checked.item_of_getElem? (by simp)
  have hbetween : Checked.slice (f :: (before ++ [rest])) 1 (before.length + 1 : Nat) =
      .ok before := by
    have hslice := @Checked.slice_of_le _ (f :: (before ++ [rest])) 1 (before.length + 1)
      (Nat.succ_pos before.length) (by simp)
    exact hslice.trans (by simp)
  show (Shape.checkArity (.atLeast 2) _ >>= fun _ => Prelude.applyArguments _) = _
  rw [Shape.checkArity_of_accepts hcount]
  show Prelude.applyArguments _ = _
  unfold Prelude.applyArguments
  rw [hlen, hlast, hbetween]
  simp only [Bind.bind, Except.bind, Checked.elements_of_some h]
  rfl

/-- **The primitive `apply`** ends as the call of its first argument, under its own name. -/
theorem endsIn_applyPrimitive {f rest : Value} {before after : List Value}
    (h : rest.elements? = some after) :
    EndsIn ⟨.apply (.object (.primitive .apply)) (f :: (before ++ [rest])), [], 0, s⟩ o s' ↔
      ∃ r s₁, EndsIn ⟨.apply f (before ++ after), [], 0, s⟩ r s₁ ∧
        o = r.named "apply" ∧ s' = s₁ := by
  rw [← endsIn_step]
  show EndsIn (callPrimitive _ .apply (f :: (before ++ [rest]))) o s' ↔ _
  unfold callPrimitive
  rw [run_apply _ f before after h]
  exact endsIn_named

end Config

namespace Interpreter

variable {i i' : Interpreter} {o : Outcome}

theorem ends_iff_endsIn (hi : i.settings.limit = none) {c : Config} :
    (∃ c', Config.Ends i.settings c o c' ∧ i' = ⟨i.settings, c'.store⟩) ↔
      ∃ s', c.EndsIn o s' ∧ i' = ⟨i.settings, s'⟩ := by
  have hsettings : i.settings = .unbounded := congrArg Settings.mk hi
  rw [hsettings]
  constructor
  · rintro ⟨c', hends, rfl⟩
    exact ⟨c'.store, ⟨c', hends, rfl⟩, rfl⟩
  · rintro ⟨s', ⟨c', hends, rfl⟩, rfl⟩
    exact ⟨c', hends, rfl⟩

theorem evaluatesTo_iff_endsIn (hi : i.settings.limit = none) {x : Value} {env : FrameId} :
    i.EvaluatesTo x env o i' ↔
      ∃ s', Config.EndsIn ⟨.enter x env, [.report x], 0, i.store⟩ o s' ∧ i' = ⟨i.settings, s'⟩ :=
  evaluatesTo_iff.trans (ends_iff_endsIn hi)

theorem appliesTo_iff_endsIn (hi : i.settings.limit = none) {f : Value} {args : List Value} :
    i.AppliesTo f args o i' ↔
      ∃ s', Config.EndsIn ⟨.apply f args, [], 0, i.store⟩ o s' ∧ i' = ⟨i.settings, s'⟩ :=
  appliesTo_iff.trans (ends_iff_endsIn hi)

end Interpreter

/-- **Three ways of calling agree.**  Without a bound on the depth, the evaluation of a combination
with quoted arguments, where `quote` has its meaning, ends as the call of its procedure does, with
the same outcome and in the same store, save that a failure is recorded.  So does the call of the
primitive `apply` with some of the arguments and the list of the others, save that an error without
a name gets that of `apply`. -/
theorem calls_agree {i : Interpreter} (hi : i.settings.limit = none) {env : FrameId}
    (henv : i.store.Quotes env) {f x : Value} (hf : f.isProcedure = true) {args : List Value}
    (hx : x.IsCall f args) :
    (∀ o i', i.EvaluatesTo x env o i' ↔
      ∃ i₁, i.AppliesTo f args o i₁ ∧ i' = i₁.mapStore (·.reporting x o)) ∧
    ∀ k rest, rest.elements? = some (args.drop k) → ∀ o i',
      i.AppliesTo (.object (.primitive .apply)) (f :: (args.take k ++ [rest])) o i' ↔
        ∃ r, i.AppliesTo f args r i' ∧ o = r.named "apply" := by
  refine ⟨fun o i' => ?_, fun k rest hrest o i' => ?_⟩
  · rw [Interpreter.evaluatesTo_iff_endsIn hi]
    simp only [Interpreter.appliesTo_iff_endsIn hi, Config.endsIn_call henv hf hx,
      Config.endsIn_report]
    constructor
    · rintro ⟨s', ⟨r, s₁, hrun, rfl, rfl⟩, rfl⟩
      exact ⟨⟨i.settings, s₁⟩, ⟨s₁, hrun, rfl⟩, rfl⟩
    · rintro ⟨i₁, ⟨s₁, hrun, rfl⟩, rfl⟩
      exact ⟨_, ⟨o, s₁, hrun, rfl, rfl⟩, rfl⟩
  · simp only [Interpreter.appliesTo_iff_endsIn hi, Config.endsIn_applyPrimitive hrest,
      List.take_append_drop]
    constructor
    · rintro ⟨s', ⟨r, s₁, hrun, rfl, rfl⟩, rfl⟩
      exact ⟨r, ⟨s', hrun, rfl⟩, rfl⟩
    · rintro ⟨r, ⟨s', hrun, rfl⟩, rfl⟩
      exact ⟨s', ⟨r, s', hrun, rfl, rfl⟩, rfl⟩

/-- A procedure of one parameter and without a name fails on two arguments, and only the primitive
`apply` names the failure. -/
theorem calls_agree_count :
    let params : Value := .pair ⟨0, 0⟩ (.symbol "x") .nil
    let s := (Store.initial false).addClosure ⟨params, [.symbol "x"], Store.global⟩
    let i : Interpreter := ⟨.unbounded, s⟩
    let f : Value := .object (.closure 0 "")
    let quoted (v : Value) : Value := Value.list 0 [.symbol "quote", v] .nil
    let e : EvalError := .argumentCount "" (.exactly 1) 2
    i.EvaluatesTo (Value.list 0 [f, quoted (.boolean true), quoted .nil] .nil) Store.global
      (.error e) i ∧
      i.AppliesTo f [.boolean true, .nil] (.error e) i ∧
      i.AppliesTo (.object (.primitive .apply)) [f, .boolean true, Value.list 0 [.nil] .nil]
        (.error { e with name := "apply" }) i := by
  intro params s i f quoted e
  have hquote : i.store.Quotes Store.global := by
    have hframe : i.store.frames[Store.global]? = some ⟨none, Store.initialBindings⟩ := rfl
    rw [Store.Quotes, Store.lookup, Store.find, hframe]
    rfl
  have hcall : Value.IsCall (Value.list 0 [f, quoted (.boolean true), quoted .nil] .nil) f
      [.boolean true, .nil] :=
    ⟨_, rfl, .cons ⟨_, _, rfl⟩ (.cons ⟨_, _, rfl⟩ .nil)⟩
  have happly : i.AppliesTo f [.boolean true, .nil] (.error e) i := ⟨1, rfl, by simp⟩
  obtain ⟨heval, hprimitive⟩ := calls_agree rfl hquote rfl hcall
  exact ⟨(heval _ _).2 ⟨i, happly, rfl⟩, happly,
    (hprimitive 1 (Value.list 0 [.nil] .nil) rfl _ _).2 ⟨_, happly, rfl⟩⟩

end Scheme
