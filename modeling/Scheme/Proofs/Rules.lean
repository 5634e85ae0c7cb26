import Mathlib
import Scheme.Proofs.Binding
import Scheme.Proofs.Depth

/-!
# Evaluation, rule by rule

What an expression evaluates to follows from what its parts evaluate to.  The rules hold whatever
tasks wait for the value, and under every bound on the depth that allows the evaluations of the
parts.

* `Config.Reaches`: some steps lead from one configuration to another;
* `Config.Gives`: a control comes to a value, above any tasks;
* `Config.Exceeds`: a configuration comes to the error that the depth is used up;
* `Value.IsForm`: lists that start with a symbol;
* `Config.reaches_operands`, `Config.reaches_branch`, `Config.gives_primitive`,
  `Config.gives_closure`, `Config.gives_define`, `Config.gives_defineValue`, `Config.gives_lambda`,
  `Config.gives_assign`: the rules for combinations, conditionals, primitives, closures,
  definitions, abstractions and assignments.
-/

namespace Scheme

/-- A smaller depth is allowed if a larger one is. -/
theorem Settings.Allows.mono {settings : Settings} {m n : Nat} (h : settings.Allows n)
    (hmn : m ≤ n) :
    settings.Allows m := by
  obtain ⟨_ | limit⟩ := settings
  · rfl
  · unfold Settings.Allows at h ⊢
    simp only [Option.any_some, decide_eq_false_iff_not] at h ⊢
    omega

/-! ### Initial bindings -/

theorem Bindings.get?_of_mem {b : Bindings} (hb : (b.map Prod.fst).Nodup) {name : String}
    {v : Value} (h : (name, v) ∈ b) : Bindings.get? b name = some v := by
  induction b with
  | nil => cases h
  | cons entry rest ih =>
    obtain ⟨n, w⟩ := entry
    rw [List.map_cons, List.nodup_cons] at hb
    rw [Bindings.get?_cons]
    rcases List.mem_cons.1 h with heq | hrest
    · obtain ⟨rfl, rfl⟩ := Prod.mk.inj heq
      exact if_pos rfl
    · have hne : name ≠ n := by
        rintro rfl
        exact hb.1 (List.mem_map.2 ⟨_, hrest, rfl⟩)
      rw [if_neg hne, ih hb.2 hrest]

namespace Store

/-- No name is bound twice at the start. -/
theorem nodup_initialBindings : (initialBindings.map Prod.fst).Nodup := by decide +kernel

theorem get?_initialBindings_keyword (k : Keyword) :
    Bindings.get? initialBindings k.name = some (.object (.keyword k)) := by
  have hk : k ∈ Keyword.all := by cases k <;> decide
  exact Bindings.get?_of_mem nodup_initialBindings (List.mem_append_left _ (List.mem_map_of_mem hk))

theorem get?_initialBindings_primitive (p : Primitive) :
    Bindings.get? initialBindings p.name = some (.object (.primitive p)) := by
  have hp : p ∈ Primitive.all := by cases p <;> decide
  exact Bindings.get?_of_mem nodup_initialBindings
    (List.mem_append_right _ (List.mem_map_of_mem hp))

end Store

namespace Config

/-! ### Runs -/

/-- Some steps of the machine lead from the first configuration to the second. -/
def Reaches (settings : Settings) : Config → Config → Prop :=
  Relation.ReflTransGen fun c c' => c.step settings = c'

section Runs

variable {settings : Settings} {c c' c'' : Config} {o : Outcome} {e : EvalError}

theorem Reaches.refl (c : Config) : Reaches settings c c := Relation.ReflTransGen.refl

theorem Reaches.trans (h : Reaches settings c c') (h' : Reaches settings c' c'') :
    Reaches settings c c'' :=
  Relation.ReflTransGen.trans h h'

theorem Reaches.single (h : c.step settings = c') : Reaches settings c c' :=
  Relation.ReflTransGen.single h

/-- The machine ends as it does from a configuration that it reaches. -/
theorem Reaches.ends_iff (h : Reaches settings c c') :
    Ends settings c o c'' ↔ Ends settings c' o c'' := by
  induction h with
  | refl => exact Iff.rfl
  | tail _ hstep ih => rw [ih, ← hstep, ends_step_iff]

theorem Reaches.ends (h : Reaches settings c c') (hends : Ends settings c' o c'') :
    Ends settings c o c'' :=
  h.ends_iff.2 hends

theorem tasks_unwind (c : Config) (task : Task) (e : EvalError) :
    (c.unwind task e).tasks = c.tasks := by
  cases task <;> rfl

/-- A failure comes to an end. -/
theorem exists_ends_of_fail (hc : c.control = .fail e) :
    ∃ e' c', Ends settings c (.error e') c' := by
  induction htasks : c.tasks generalizing c e with
  | nil => exact ⟨e, c, .stopped (by rw [outcome?, hc, htasks])⟩
  | cons task rest ih =>
    -- the task on top hands an error on, and leaves the others as they are
    have hstep : c.step settings = (c.popTask rest).unwind task e := by
      unfold step
      rw [hc]
      dsimp only
      rw [htasks]
    obtain ⟨e', hcontrol, -⟩ := control_unwind (c.popTask rest) task e
    obtain ⟨e'', c', hends⟩ := ih hcontrol (tasks_unwind (c.popTask rest) task e)
    rw [← hstep] at hends
    exact ⟨e'', c', ends_step_iff.1 hends⟩

/-- The configuration comes to the error that the depth is used up. -/
def Exceeds (settings : Settings) (c : Config) : Prop :=
  ∃ c' e, Reaches settings c c' ∧ c'.control = .fail e ∧ e.kind = .depthExceeded

theorem Reaches.exceeds (h : Reaches settings c c') (hexceeds : Exceeds settings c') :
    Exceeds settings c := by
  obtain ⟨c'', e, hreaches, hcontrol, hkind⟩ := hexceeds
  exact ⟨c'', e, h.trans hreaches, hcontrol, hkind⟩

/-- A configuration that goes too deep ends with that error. -/
theorem Exceeds.ends (h : Exceeds settings c) :
    ∃ e c', Ends settings c (.error e) c' ∧ e.kind = .depthExceeded := by
  obtain ⟨c', e, hreaches, hcontrol, hkind⟩ := h
  obtain ⟨e', c'', hends⟩ : ∃ e' c'', Ends settings c' (.error e') c'' :=
    exists_ends_of_fail hcontrol
  obtain ⟨e'', hoe, hkind'⟩ := kind_of_ends hends hcontrol
  cases hoe
  exact ⟨e', c'', hreaches.ends hends, hkind'.trans hkind⟩

end Runs

end Config

/-! ### Forms -/

/-- The expression is a list of a symbol and operands. -/
def Value.IsForm (x : Value) (head : String) (operands : List Value) : Prop :=
  ∃ l tail, x = .pair l (.symbol head) tail ∧ tail.elements? = some operands

theorem Value.keyword?_of_isProcedure {f : Value} (h : f.isProcedure = true) :
    f.keyword? = none := by
  unfold Value.isProcedure at h
  split at h
  · rfl
  · rfl
  · cases h

namespace Config

/-- The control, at a depth and in a store, comes to a value above all tasks that may wait for
it. -/
def Gives (settings : Settings) (control : Control) (depth : Nat) (s : Store) (v : Value)
    (s' : Store) : Prop :=
  ∀ tasks, Reaches settings ⟨control, tasks, depth, s⟩ ⟨.ret v, tasks, depth, s'⟩

/-- Expressions, evaluated in a frame one after another, come to values. -/
inductive GivesAll (settings : Settings) (env : FrameId) (depth : Nat) :
    Store → List Value → List Value → Store → Prop where
  | nil (s : Store) : GivesAll settings env depth s [] [] s
  | cons {s s₁ s₂ : Store} {x v : Value} {xs vs : List Value}
      (hfirst : Gives settings (.enter x env) depth s v s₁)
      (hrest : GivesAll settings env depth s₁ xs vs s₂) :
      GivesAll settings env depth s (x :: xs) (v :: vs) s₂

variable {settings : Settings} {control : Control} {tasks : List Task} {depth : Nat} {s s' : Store}
variable {env frame : FrameId} {name head : String} {x v f : Value}
    {operands xs vs more : List Value}

/-! ### Nested evaluations -/

/-- An expression is evaluated one level deeper. -/
theorem reaches_enter (hdepth : settings.Allows depth) :
    Reaches settings ⟨.enter x env, tasks, depth, s⟩ ⟨.eval x env, .leave :: tasks, depth + 1, s⟩ :=
  .single (enterStep_of_allows (c := ⟨.enter x env, tasks, depth, s⟩) hdepth x env)

theorem Gives.enter (h : Gives settings (.eval x env) (depth + 1) s v s')
    (hdepth : settings.Allows depth) :
    Gives settings (.enter x env) depth s v s' := by
  intro tasks
  have hleave :
      Reaches settings ⟨.ret v, .leave :: tasks, depth + 1, s'⟩ ⟨.ret v, tasks, depth, s'⟩ :=
    .single rfl
  exact (reaches_enter hdepth).trans ((h _).trans hleave)

/-- Nothing is evaluated at a depth that is not allowed. -/
theorem exceeds_enter (hdepth : ¬ settings.Allows depth) :
    Exceeds settings ⟨.enter x env, tasks, depth, s⟩ :=
  ⟨_, .depthExceeded x.write,
    .single (enterStep_of_not_allows (c := ⟨.enter x env, tasks, depth, s⟩) hdepth x env), rfl, rfl⟩

/-- An expression goes too deep if it does so one level deeper. -/
theorem Exceeds.enter (h : Exceeds settings ⟨.eval x env, .leave :: tasks, depth + 1, s⟩) :
    Exceeds settings ⟨.enter x env, tasks, depth, s⟩ := by
  by_cases hdepth : settings.Allows depth
  · exact (reaches_enter hdepth).exceeds h
  · exact exceeds_enter hdepth

/-! ### Atoms -/

theorem evalStep_symbol {c : Config} (hfind : c.store.find env name = some (frame, v))
    (hv : v.keyword? = none) :
    c.evalStep (.symbol name) env = c.ret v := by
  unfold evalStep Store.lookup
  simp only [hfind, hv]

/-- A symbol gives the value of its nearest binding. -/
theorem gives_symbol (hfind : s.find env name = some (frame, v)) (hv : v.keyword? = none) :
    Gives settings (.eval (.symbol name) env) depth s v s := by
  intro tasks
  have hstep : evalStep ⟨.eval (.symbol name) env, tasks, depth, s⟩ (.symbol name) env =
      ⟨.ret v, tasks, depth, s⟩ := evalStep_symbol hfind hv
  exact .single hstep

theorem gives_enter_symbol (hdepth : settings.Allows depth)
    (hfind : s.find env name = some (frame, v)) (hv : v.keyword? = none) :
    Gives settings (.enter (.symbol name) env) depth s v s :=
  (gives_symbol hfind hv).enter hdepth

/-- A number gives itself. -/
theorem gives_number (n : Number) : Gives settings (.eval (.number n) env) depth s (.number n) s :=
  fun _ => .single rfl

theorem gives_enter_number (hdepth : settings.Allows depth) (n : Number) :
    Gives settings (.enter (.number n) env) depth s (.number n) s :=
  (gives_number n).enter hdepth

theorem givesAll_numbers (hdepth : settings.Allows depth) (ns : List Number) :
    GivesAll settings env depth s (ns.map .number) (ns.map .number) s := by
  induction ns with
  | nil => exact .nil s
  | cons n ns ih => exact .cons (gives_enter_number hdepth n) ih

/-! ### Combinations -/

/-- Arguments are evaluated from left to right. -/
theorem reaches_evalOperands (h : GivesAll settings env depth s xs vs s') (before : List Value) :
    Reaches settings (evalOperands ⟨control, tasks, depth, s⟩ f before (xs ++ more) env)
      (evalOperands ⟨control, tasks, depth, s'⟩ f (vs.reverse ++ before) more env) := by
  induction h generalizing before with
  | nil s => exact .refl _
  | @cons s s₁ s₂ x v xs vs hfirst _ ih =>
    have hvalue :
        Reaches settings ⟨.enter x env, .operand f before (xs ++ more) env :: tasks, depth, s⟩
        ⟨.ret v, .operand f before (xs ++ more) env :: tasks, depth, s₁⟩ := hfirst _
    have hnext : Reaches settings ⟨.ret v, .operand f before (xs ++ more) env :: tasks, depth, s₁⟩
        (evalOperands ⟨control, tasks, depth, s₁⟩ f (v :: before) (xs ++ more) env) := by
      refine .single ?_
      show evalOperands _ f (v :: before) (xs ++ more) env = _
      cases xs ++ more <;> rfl
    rw [List.reverse_cons, List.append_assoc]
    exact hvalue.trans (hnext.trans (ih (v :: before)))

/-- A form whose symbol is bound to a procedure first evaluates that symbol. -/
theorem step_combination {l : Label} {tail : Value} (hfind : s.find env head = some (frame, f))
    (hf : f.isProcedure = true) :
    step settings ⟨.eval (.pair l (.symbol head) tail) env, tasks, depth, s⟩ =
      ⟨.enter (.symbol head) env, .operator (.pair l (.symbol head) tail) tail env :: tasks,
        depth, s⟩ := by
  show evalForm _ _ _ _ env = _
  unfold evalForm headKeyword?
  simp only [hfind, Option.bind_some, Value.keyword?_of_isProcedure hf]
  rfl

/-- **A combination** evaluates its symbol, and then its operands up to any of them. -/
theorem reaches_operands (hx : x.IsForm head (xs ++ more))
    (hfind : s.find env head = some (frame, f)) (hf : f.isProcedure = true)
    (hdepth : settings.Allows depth) (h : GivesAll settings env depth s xs vs s') :
    Reaches settings ⟨.eval x env, tasks, depth, s⟩
      (evalOperands ⟨.ret f, tasks, depth, s'⟩ f vs.reverse more env) := by
  obtain ⟨l, tail, rfl, htail⟩ := hx
  have hoperator := gives_enter_symbol hdepth hfind (Value.keyword?_of_isProcedure hf)
    (.operator (.pair l (.symbol head) tail) tail env :: tasks)
  have hnext :
      step settings ⟨.ret f, .operator (.pair l (.symbol head) tail) tail env :: tasks, depth, s⟩ =
      evalOperands ⟨.ret f, tasks, depth, s⟩ f [] (xs ++ more) env := by
    show resume ⟨.ret f, tasks, depth, s⟩ (.operator (.pair l (.symbol head) tail) tail env) f = _
    rw [resume, if_pos hf, htail]
  have hrest : Reaches settings (evalOperands ⟨.ret f, tasks, depth, s⟩ f [] (xs ++ more) env)
      (evalOperands ⟨.ret f, tasks, depth, s'⟩ f (vs.reverse ++ []) more env) :=
        reaches_evalOperands h []
  rw [List.append_nil] at hrest
  exact (Reaches.single (step_combination hfind hf)).trans
    (hoperator.trans ((Reaches.single hnext).trans hrest))

/-- When all operands have values, the procedure is called. -/
theorem reaches_invoke (hx : x.IsForm head operands) (hfind : s.find env head = some (frame, f))
    (hf : f.isProcedure = true) (hdepth : settings.Allows depth)
    (h : GivesAll settings env depth s operands vs s') :
    Reaches settings ⟨.eval x env, tasks, depth, s⟩ ⟨.invoke f vs, tasks, depth, s'⟩ := by
  rw [← List.append_nil operands] at hx
  have hcall : Reaches settings ⟨.eval x env, tasks, depth, s⟩
      ⟨.invoke f vs.reverse.reverse, tasks, depth, s'⟩ :=
    reaches_operands hx hfind hf hdepth h
  rwa [List.reverse_reverse] at hcall

/-- The symbol of a combination is evaluated at the depth of the combination. -/
theorem exceeds_combination (hx : x.IsForm head operands)
    (hfind : s.find env head = some (frame, f)) (hf : f.isProcedure = true)
    (hdepth : ¬ settings.Allows depth) :
    Exceeds settings ⟨.eval x env, tasks, depth, s⟩ := by
  obtain ⟨l, tail, rfl, -⟩ := hx
  exact (Reaches.single (step_combination hfind hf)).exceeds (exceeds_enter hdepth)

/-! ### Calls -/

/-- A primitive gives its value at the next stamp. -/
theorem reaches_primitive {p : Primitive} (hrun : p.shape.run s.clock vs = .ok (.give v)) :
    Reaches settings ⟨.invoke (.object (.primitive p)) vs, tasks, depth, s⟩
      ⟨.ret v, tasks, depth, s.tick⟩ := by
  refine .single ?_
  show callPrimitive _ p vs = _
  unfold callPrimitive
  rw [hrun]
  rfl

/-- **A combination of a primitive** gives what the primitive gives. -/
theorem gives_primitive {p : Primitive} (hx : x.IsForm head operands)
    (hfind : s.find env head = some (frame, .object (.primitive p)))
    (hdepth : settings.Allows depth) (h : GivesAll settings env depth s operands vs s')
    (hrun : p.shape.run s'.clock vs = .ok (.give v)) :
    Gives settings (.eval x env) depth s v s'.tick :=
  fun _ => (reaches_invoke hx hfind rfl hdepth h).trans (reaches_primitive hrun)

/-- Forms are evaluated one after another, and the last takes the place of them all. -/
theorem reaches_evalForms (h : GivesAll settings env depth s xs vs s') (last : Value) :
    Reaches settings (evalForms ⟨control, tasks, depth, s⟩ (xs ++ [last]) env)
      ⟨.eval last env, tasks, depth, s'⟩ := by
  induction h generalizing control with
  | nil s => exact .refl _
  | @cons s s₁ s₂ x v xs vs hfirst _ ih =>
    have hforms : evalForms ⟨control, tasks, depth, s⟩ (x :: (xs ++ [last])) env =
        ⟨.enter x env, .forms (xs ++ [last]) env :: tasks, depth, s⟩ := by
      cases xs <;> rfl
    have hnext : Reaches settings ⟨.ret v, .forms (xs ++ [last]) env :: tasks, depth, s₁⟩
        (evalForms ⟨.ret v, tasks, depth, s₁⟩ (xs ++ [last]) env) := .single rfl
    rw [List.cons_append, hforms]
    exact (hfirst _).trans (hnext.trans ih)

/-- **The call of a closure** evaluates the forms of its body in a new frame, the last in place of
the call. -/
theorem reaches_last {id : Nat} {params : Value} {formals : Formals String} {forms : List Value}
    {last : Value} (h : s.closures[id]? = some ⟨params, forms ++ [last], env⟩)
    (hparams : Formals.parse? params = some formals)
    (hcount : formals.arity.accepts vs.length = true) (hforms : GivesAll settings s.nextFrame depth
      ((s.bindArguments env formals vs).record (.call name vs.length)) forms xs s') :
    Reaches settings ⟨.invoke (.object (.closure id name)) vs, tasks, depth, s⟩
      ⟨.eval last s.nextFrame, tasks, depth, s'⟩ := by
  have hbound : s.bindParameters name params vs = .ok (formals.bindings s.clock vs) :=
    (Store.bindParameters_of_parse? hparams s name vs).trans (if_pos hcount)
  have hne : (forms ++ [last]).isEmpty = false := by simp
  have hcall : step settings ⟨.invoke (.object (.closure id name)) vs, tasks, depth, s⟩ =
      evalForms ⟨.invoke (.object (.closure id name)) vs, tasks, depth,
        (s.bindArguments env formals vs).record (.call name vs.length)⟩
          (forms ++ [last]) s.nextFrame := by
    show callClosure _ id name vs evalForms = _
    unfold callClosure
    simp only [h, hbound, hne]
    rfl
  exact (Reaches.single hcall).trans (reaches_evalForms hforms last)

/-- **A combination of a closure** gives what the last form of the body gives. -/
theorem gives_closure {id : Nat} {params : Value} {formals : Formals String} {forms : List Value}
    {last : Value} {outer : FrameId} {s₁ s₂ : Store} (hx : x.IsForm head operands)
    (hfind : s.find env head = some (frame, .object (.closure id name)))
    (hdepth : settings.Allows depth) (hargs : GivesAll settings env depth s operands vs s₁)
    (h : s₁.closures[id]? = some ⟨params, forms ++ [last], outer⟩)
    (hparams : Formals.parse? params = some formals)
    (hcount : formals.arity.accepts vs.length = true) (hforms : GivesAll settings s₁.nextFrame depth
      ((s₁.bindArguments outer formals vs).record (.call name vs.length)) forms xs s₂)
    (hlast : Gives settings (.eval last s₁.nextFrame) depth s₂ v s') :
    Gives settings (.eval x env) depth s v s' := by
  intro tasks
  have hbody := (reaches_last h hparams hcount hforms).trans (hlast tasks)
  exact (reaches_invoke hx hfind rfl hdepth hargs).trans hbody

/-- The call of a closure with a body of one form. -/
theorem reaches_body {id : Nat} {params : Value} {formals : Formals String}
    (h : s.closures[id]? = some ⟨params, [x], env⟩) (hparams : Formals.parse? params = some formals)
    (hcount : formals.arity.accepts vs.length = true) :
    Reaches settings ⟨.invoke (.object (.closure id name)) vs, tasks, depth, s⟩
      ⟨.eval x s.nextFrame, tasks, depth,
      (s.bindArguments env formals vs).record (.call name vs.length)⟩ := by
  have hlast : s.closures[id]? = some ⟨params, [] ++ [x], env⟩ := h
  exact reaches_last hlast hparams hcount (.nil _)

/-! ### Special forms -/

section Keywords

variable {k : Keyword}

theorem step_keyword {l : Label} {tail : Value}
    (hfind : s.find env head = some (frame, .object (.keyword k)))
    (htail : tail.elements? = some operands) :
    step settings ⟨.eval (.pair l (.symbol head) tail) env, tasks, depth, s⟩ =
      evalKeyword ⟨.eval (.pair l (.symbol head) tail) env, tasks, depth, s⟩ k
        (.pair l (.symbol head) tail)
        operands env := by
  show evalForm _ _ _ tail env = _
  unfold evalForm headKeyword?
  simp only [hfind, htail, Option.bind_some, Value.keyword?]

variable {test yes no : Value}

theorem reaches_test (hx : x.IsForm head [test, yes, no])
    (hfind : s.find env head = some (frame, .object (.keyword .conditional))) :
    Reaches settings ⟨.eval x env, tasks, depth, s⟩
      ⟨.enter test env, .branch yes (some no) env :: tasks, depth, s⟩ := by
  obtain ⟨l, tail, rfl, htail⟩ := hx
  exact .single (step_keyword hfind htail)

/-- **A conditional** evaluates its test, and then the branch that the value chooses in its own
place. -/
theorem reaches_branch (hx : x.IsForm head [test, yes, no])
    (hfind : s.find env head = some (frame, .object (.keyword .conditional)))
    (htest : Gives settings (.enter test env) depth s v s') :
    Reaches settings ⟨.eval x env, tasks, depth, s⟩
      ⟨.eval (if v.isTrue then yes else no) env, tasks, depth, s'⟩ := by
  have hchoose : step settings ⟨.ret v, .branch yes (some no) env :: tasks, depth, s'⟩ =
      ⟨.eval (if v.isTrue then yes else no) env, tasks, depth, s'⟩ := by
    show resume ⟨.ret v, tasks, depth, s'⟩ (.branch yes (some no) env) v = _
    rw [resume]
    split_ifs <;> rfl
  exact (reaches_test hx hfind).trans ((htest _).trans (.single hchoose))

/-- **The definition of a procedure** adds a closure and binds the name to it. -/
theorem gives_define {l : Label} {params : Value} {formals : Formals String} {body : List Value}
    (hx : x.IsForm head (.pair l (.symbol name) params :: body))
    (hfind : s.find env head = some (frame, .object (.keyword .define)))
    (hparams : Formals.parse? params = some formals) (hbody : body ≠ []) :
    Gives settings (.eval x env) depth s .void
      (((s.addClosure ⟨params, body, env⟩).record (.define name)).define env name
        (.object (.closure s.nextClosure name))) := by
  intro tasks
  obtain ⟨l', tail, rfl, htail⟩ := hx
  obtain ⟨first, rest, rfl⟩ := List.exists_cons_of_ne_nil hbody
  refine .single ((step_keyword hfind htail).trans ?_)
  simp only [evalKeyword, evalDefine, makeClosure, hparams]
  rfl

variable {y : Value}

/-- **The definition of a variable** binds the name to the value of the expression. -/
theorem gives_defineValue (hx : x.IsForm head [.symbol name, y])
    (hfind : s.find env head = some (frame, .object (.keyword .define)))
    (hy : Gives settings (.enter y env) depth s v s') :
    Gives settings (.eval x env) depth s .void ((s'.record (.define name)).define env name v) := by
  intro tasks
  obtain ⟨l, tail, rfl, htail⟩ := hx
  have hawait : Reaches settings ⟨.eval (.pair l (.symbol head) tail) env, tasks, depth, s⟩
      ⟨.enter y env, .define name env :: tasks, depth, s⟩ := .single (step_keyword hfind htail)
  have hbind : Reaches settings ⟨.ret v, .define name env :: tasks, depth, s'⟩
      ⟨.ret .void, tasks, depth, (s'.record (.define name)).define env name v⟩ := .single rfl
  exact hawait.trans ((hy _).trans hbind)

/-- **An abstraction** adds a closure and gives it. -/
theorem gives_lambda {params : Value} {formals : Formals String} {body : List Value}
    (hx : x.IsForm head (params :: body))
    (hfind : s.find env head = some (frame, .object (.keyword .lambda)))
    (hparams : Formals.parse? params = some formals) (hbody : body ≠ []) :
    Gives settings (.eval x env) depth s (.object (.closure s.nextClosure ""))
      (s.addClosure ⟨params, body, env⟩) := by
  intro tasks
  obtain ⟨l, tail, rfl, htail⟩ := hx
  obtain ⟨first, rest, rfl⟩ := List.exists_cons_of_ne_nil hbody
  refine .single ((step_keyword hfind htail).trans ?_)
  simp only [evalKeyword, makeClosure, hparams]
  rfl

/-- **An assignment** changes the nearest binding of the name, if there is one, to the value of the
expression. -/
theorem gives_assign {other : FrameId} {w w' : Value} (hx : x.IsForm head [.symbol name, y])
    (hfind : s.find env head = some (frame, .object (.keyword .assign)))
    (hbound : s.find env name = some (other, w)) (hy : Gives settings (.enter y env) depth s v s')
    (hnearest : s'.find env name = some (other, w')) :
    Gives settings (.eval x env) depth s .void (s'.define other name v) := by
  intro tasks
  obtain ⟨l, tail, rfl, htail⟩ := hx
  have hawait : step settings ⟨.eval (.pair l (.symbol head) tail) env, tasks, depth, s⟩ =
      ⟨.enter y env, .assign name env :: tasks, depth, s⟩ := by
    rw [step_keyword hfind htail]
    simp only [evalKeyword, Store.lookFor, hbound]
    rfl
  have hchange : step settings ⟨.ret v, .assign name env :: tasks, depth, s'⟩ =
      ⟨.ret .void, tasks, depth, s'.define other name v⟩ := by
    show resume ⟨.ret v, tasks, depth, s'⟩ (.assign name env) v = _
    simp only [resume, Store.lookFor, hnearest]
    rfl
  exact (Reaches.single hawait).trans ((hy _).trans (.single hchange))

end Keywords

end Config

/-! ### Interpreters -/

namespace Interpreter

variable {i : Interpreter} {x v : Value} {env : FrameId} {s : Store}

theorem evaluatesTo_of_gives (h : Config.Gives i.settings (.enter x env) 0 i.store v s) :
    i.EvaluatesTo x env (.value v) ⟨i.settings, s⟩ := by
  have hreport : Config.Reaches i.settings ⟨.ret v, [.report x], 0, s⟩ ⟨.ret v, [], 0, s⟩ :=
    .single rfl
  exact evaluatesTo_iff.2 ⟨_, ((h [.report x]).trans hreport).ends (.stopped rfl), rfl⟩

theorem exists_evaluatesTo_of_exceeds
    (h : Config.Exceeds i.settings ⟨.enter x env, [.report x], 0, i.store⟩) :
    ∃ e i', e.kind = .depthExceeded ∧ i.EvaluatesTo x env (.error e) i' := by
  obtain ⟨e, c, hends, hkind⟩ := h.ends
  exact ⟨e, _, hkind, evaluatesTo_iff.2 ⟨c, hends, rfl⟩⟩

end Interpreter

end Scheme
