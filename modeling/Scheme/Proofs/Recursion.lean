import Mathlib
import Scheme.Proofs.Rules

/-!
# The depth of recursion

A call in tail position takes the place of its caller, at the same depth and above the same tasks,
so a loop of such calls needs one depth however often it goes round.  A call inside another
expression is evaluated one level deeper, so a recursion through such calls needs a depth for each
of them.

* `Store.Provides`, `Store.Calls`: stores with one procedure, and frames of its calls;
* `Store.Loops.reaches_next`, `Store.Loops.exists_gives`: one round of a loop by tail calls, and all
  of them;
* `Store.Counts.reaches_next`: one call of a recursion that waits for its calls;
* `Store.Counts.exists_gives`, `Store.Counts.exceeds`: all its calls, within the bound and beyond
  it;
* `NeedsBound`: the smallest bound under which a call succeeds;
* `recursion_depth`: the main result.
-/

namespace Scheme

/-! ### Arithmetic of integers -/

namespace Primitive

variable (stamp : Nat) (m n : Int)

theorem run_numEq : numEq.shape.run stamp [.number (.ofInt m), .number (.ofInt n)] =
    .ok (.give (.boolean (decide (m = n)))) := by
  have h : decide ((m : Rat) = n) = decide (m = n) := by simp
  rw [← h]
  rfl

theorem run_add : add.shape.run stamp [.number (.ofInt m), .number (.ofInt n)] =
    .ok (.give (.number (.ofInt (m + n)))) := by
  have h : Number.add (Number.add (.ofInt 0) (.ofInt m)) (.ofInt n) = .ofInt (m + n) := by
    simp [Number.add, Number.combine, Number.ofInt, Number.ofRat, Cartesian.add]
  rw [← h]
  rfl

theorem run_sub : sub.shape.run stamp [.number (.ofInt m), .number (.ofInt n)] =
    .ok (.give (.number (.ofInt (m - n)))) := by
  have h : Number.sub (.ofInt m) (.ofInt n) = .ofInt (m - n) := by
    simp [Number.sub, Number.combine, Number.ofInt, Number.ofRat, Cartesian.sub]
  rw [← h]
  rfl

/-- One less than a successor. -/
theorem run_pred (n : Nat) :
    sub.shape.run stamp [.number (.ofInt (n + 1 : Nat)), .number (.ofInt 1)] =
    .ok (.give (.number (.ofInt n))) := by
  rw [run_sub, Nat.cast_succ, Int.add_sub_cancel]

end Primitive

/-! ### One procedure -/

/-- The global frame has its initial bindings, and the name of the first closure, which has these
parameters and this body. -/
structure Store.Provides (s : Store) (name : String) (formals : Formals String) (body : Value) :
    Prop where
  global : s.frames[Store.global]? =
    some ⟨none, Bindings.set name (.object (.closure 0 name)) Store.initialBindings⟩
  closure : ∃ params, s.closures[0]? = some ⟨params, [body], Store.global⟩ ∧
    Formals.parse? params = some formals

/-- In addition, the frame `env` extends the global one by the bindings `b`. -/
structure Store.Calls (s : Store) (name : String) (formals : Formals String) (body : Value)
    (env : FrameId) (b : Bindings) : Prop extends s.Provides name formals body where
  frame : s.frames[env]? = some ⟨some Store.global, b⟩
  pos : Store.global < env

namespace Store

variable {s : Store} {name other : String} {formals : Formals String} {env : FrameId} {b : Bindings}
variable {body v : Value}

theorem Provides.tick (h : s.Provides name formals body) : s.tick.Provides name formals body :=
  ⟨h.global, h.closure⟩

theorem Calls.tick (h : s.Calls name formals body env b) : s.tick.Calls name formals body env b :=
  ⟨h.toProvides.tick, h.frame, h.pos⟩

/-- A call gets a frame of its own. -/
theorem Provides.call (h : s.Provides name formals body) (args : List Value) (event : Event) :
    ((s.bindArguments Store.global formals args).record event).Calls name formals body s.nextFrame
      (formals.bindings s.clock args) :=
  ⟨⟨frames_call h.global _ _ _ _, h.closure⟩, frames_call_self _ _ _ _ _, lt_nextFrame h.global⟩

theorem Provides.find_global (h : s.Provides name formals body) (other : String) :
    s.find Store.global other =
    (Bindings.get? (Bindings.set name (.object (.closure 0 name)) initialBindings) other).map
      (Prod.mk Store.global) := by
  rw [find, h.global]
  dsimp only
  cases Bindings.get? (Bindings.set name (.object (.closure 0 name)) initialBindings) other <;> rfl

/-- A parameter is found in the frame of the call. -/
theorem Calls.find_param (h : s.Calls name formals body env b)
    (hb : Bindings.get? b other = some v) :
    s.find env other = some (env, v) :=
  find_here h.frame hb

theorem Calls.find_outer (h : s.Calls name formals body env b) (hb : Bindings.get? b other = none) :
    s.find env other = s.find Store.global other :=
  find_outward h.frame hb h.pos

theorem Provides.find_self (h : s.Provides name formals body) :
    s.find Store.global name = some (Store.global, .object (.closure 0 name)) := by
  rw [h.find_global, Bindings.get?_set, if_pos rfl]
  rfl

theorem Calls.find_self (h : s.Calls name formals body env b) (hb : Bindings.get? b name = none) :
    s.find env name = some (Store.global, .object (.closure 0 name)) :=
  (h.find_outer hb).trans h.toProvides.find_self

theorem Calls.find_primitive (h : s.Calls name formals body env b) (p : Primitive)
    (hp : p.name ≠ name) (hb : Bindings.get? b p.name = none) :
    s.find env p.name = some (Store.global, .object (.primitive p)) := by
  rw [h.find_outer hb, h.find_global, Bindings.get?_set, if_neg hp, get?_initialBindings_primitive]
  rfl

theorem Calls.find_keyword (h : s.Calls name formals body env b) (k : Keyword) (hk : k.name ≠ name)
    (hb : Bindings.get? b k.name = none) :
    s.find env k.name = some (Store.global, .object (.keyword k)) := by
  rw [h.find_outer hb, h.find_global, Bindings.get?_set, if_neg hk, get?_initialBindings_keyword]
  rfl

end Store

/-! ### Parts of the body of a call -/

section Parts

open Config

variable {settings : Settings} {tasks : List Task} {depth : Nat} {s s' : Store}
    {name param : String}
variable {formals : Formals String} {env : FrameId} {b : Bindings} {p : Primitive}
variable {x v body test yes no : Value} {operands vs : List Value} {m n : Int}

/-- A primitive applied to a parameter and a number. -/
theorem Store.Calls.gives_primitive (h : s.Calls name formals body env b) (hp : p.name ≠ name)
    (hb : Bindings.get? b p.name = none)
    (hparam : Bindings.get? b param = some (.number (.ofInt m)))
    (hx : x.IsForm p.name [.symbol param, .number (.ofInt n)])
    (hrun : ∀ stamp, p.shape.run stamp [.number (.ofInt m), .number (.ofInt n)] = .ok (.give v))
    (hdepth : settings.Allows (depth + 1)) : Gives settings (.enter x env) depth s v s.tick := by
  have hargs : GivesAll settings env (depth + 1) s [.symbol param, .number (.ofInt n)]
      [.number (.ofInt m), .number (.ofInt n)] s :=
    .cons (gives_enter_symbol hdepth (h.find_param hparam) rfl)
      (.cons (gives_enter_number hdepth _) (.nil s))
  have hgives := Config.gives_primitive hx (h.find_primitive p hp hb) hdepth hargs (hrun s.clock)
  exact hgives.enter (hdepth.mono (Nat.le_succ depth))

/-- Such an expression goes too deep if the level below it is not allowed. -/
theorem Store.Calls.exceeds_primitive (h : s.Calls name formals body env b) (hp : p.name ≠ name)
    (hb : Bindings.get? b p.name = none) (hx : x.IsForm p.name operands)
    (hdepth : ¬ settings.Allows (depth + 1)) : Exceeds settings ⟨.enter x env, tasks, depth, s⟩ :=
  (exceeds_combination hx (h.find_primitive p hp hb) rfl hdepth).enter

/-- A conditional on whether a parameter is zero. -/
theorem Store.Calls.reaches_branch (h : s.Calls name formals body env b)
    (hname : name ≠ "if" ∧ name ≠ "=")
    (hb : Bindings.get? b "if" = none ∧ Bindings.get? b "=" = none)
    (hparam : Bindings.get? b param = some (.number (.ofInt n)))
    (hx : x.IsForm "if" [test, yes, no])
    (htest : test.IsForm "=" [.symbol param, .number (.ofInt 0)])
    (hdepth : settings.Allows (depth + 1)) :
    Reaches settings ⟨.eval x env, tasks, depth, s⟩
      ⟨.eval (if n = 0 then yes else no) env, tasks, depth, s.tick⟩ := by
  have hvalue : Gives settings (.enter test env) depth s (.boolean (decide (n = 0))) s.tick :=
    h.gives_primitive (p := .numEq) hname.2.symm hb.2 hparam htest
      (fun stamp => Primitive.run_numEq stamp n 0) hdepth
  have hbranch : Reaches settings ⟨.eval x env, tasks, depth, s⟩
      ⟨.eval (if decide (n = 0) then yes else no) env, tasks, depth, s.tick⟩ :=
    Config.reaches_branch hx (h.find_keyword .conditional hname.1.symm hb.1) hvalue
  simpa only [decide_eq_true_eq] using hbranch

theorem Store.Calls.exceeds_branch (h : s.Calls name formals body env b)
    (hname : name ≠ "if" ∧ name ≠ "=")
    (hb : Bindings.get? b "if" = none ∧ Bindings.get? b "=" = none)
    (hx : x.IsForm "if" [test, yes, no]) (htest : test.IsForm "=" operands)
    (hdepth : ¬ settings.Allows (depth + 1)) :
    Exceeds settings ⟨.eval x env, tasks, depth, s⟩ := by
  have hexceeds :
      Exceeds settings ⟨.enter test env, .branch yes (some no) env :: tasks, depth, s⟩ :=
    h.exceeds_primitive (p := .numEq) hname.2.symm hb.2 htest hdepth
  exact (reaches_test hx (h.find_keyword .conditional hname.1.symm hb.1)).exceeds hexceeds

/-- **The call of the procedure** evaluates its body in a frame of its own, at the depth of the call
and above the tasks that wait for it. -/
theorem Store.Provides.reaches_call (h : s'.Provides name formals body)
    (hx : x.IsForm name operands)
    (hfind : s.find env name = some (Store.global, .object (.closure 0 name)))
    (hargs : GivesAll settings env depth s operands vs s')
    (hcount : formals.arity.accepts vs.length = true) (hdepth : settings.Allows depth) :
    ∃ s'' env', s''.Calls name formals body env' (formals.bindings s'.clock vs) ∧
      ∀ tasks, Reaches settings ⟨.eval x env, tasks, depth, s⟩
        ⟨.eval body env', tasks, depth, s''⟩ := by
  obtain ⟨params, hclosure, hparams⟩ := h.closure
  exact ⟨_, _, h.call vs (.call name vs.length), fun _ =>
    (reaches_invoke hx hfind rfl hdepth hargs).trans (reaches_body hclosure hparams hcount)⟩

end Parts

/-! ### A loop -/

/-- The body is `(if (= n 0) acc (loop (- n 1) (+ acc 1)))`, with these parts. -/
structure IsLoop (body test next less more : Value) : Prop where
  body : body.IsForm "if" [test, .symbol "acc", next]
  test : test.IsForm "=" [.symbol "n", .number (.ofInt 0)]
  next : next.IsForm "loop" [less, more]
  less : less.IsForm "-" [.symbol "n", .number (.ofInt 1)]
  more : more.IsForm "+" [.symbol "acc", .number (.ofInt 1)]

/-- The bindings of the parameters of the loop. -/
def loopBindings (n acc : Int) : Bindings :=
  [("acc", .number (.ofInt acc)), ("n", .number (.ofInt n))]

/-- The store of a call of the loop. -/
abbrev Store.Loops (s : Store) (body : Value) (env : FrameId) (n acc : Int) : Prop :=
  s.Calls "loop" ⟨["n", "acc"], none⟩ body env (loopBindings n acc)

section Loop

open Config

variable {settings : Settings} {depth : Nat} {s : Store} {env : FrameId}
    {body test next less more : Value}
variable {n acc : Int}

theorem Store.Loops.reaches_branch (h : s.Loops body env n acc)
    (hbody : IsLoop body test next less more) (hdepth : settings.Allows (depth + 1))
    (tasks : List Task) :
    Reaches settings ⟨.eval body env, tasks, depth, s⟩
      ⟨.eval (if n = 0 then .symbol "acc" else next) env, tasks, depth, s.tick⟩ :=
  Store.Calls.reaches_branch h (by decide) ⟨rfl, rfl⟩ rfl hbody.body hbody.test hdepth

/-- **The last round** gives what has been counted. -/
theorem Store.Loops.gives_last (h : s.Loops body env 0 acc)
    (hbody : IsLoop body test next less more) (hdepth : settings.Allows (depth + 1)) :
    Gives settings (.eval body env) depth s (.number (.ofInt acc)) s.tick := by
  intro tasks
  exact (h.reaches_branch hbody hdepth tasks).trans (gives_symbol (h.tick.find_param rfl) rfl tasks)

/-- **Another round** takes the place of the one before, at the same depth and above the same
tasks. -/
theorem Store.Loops.reaches_next {n : Nat} (h : s.Loops body env (n + 1 : Nat) acc)
    (hbody : IsLoop body test next less more) (hdepth : settings.Allows (depth + 1)) :
    ∃ s' env', s'.Loops body env' n (acc + 1) ∧ ∀ tasks,
      Reaches settings ⟨.eval body env, tasks, depth, s⟩ ⟨.eval body env', tasks, depth, s'⟩ := by
  have hless : Gives settings (.enter less env) depth s.tick (.number (.ofInt n)) s.tick.tick :=
    h.tick.gives_primitive (p := .sub) (by decide) rfl rfl hbody.less
      (fun stamp => Primitive.run_pred stamp n)
      hdepth
  have hmore :
      Gives settings (.enter more env) depth s.tick.tick (.number (.ofInt (acc + 1)))
        s.tick.tick.tick :=
    h.tick.tick.gives_primitive (p := .add) (by decide) rfl rfl hbody.more
      (fun stamp => Primitive.run_add stamp acc 1) hdepth
  obtain ⟨s', env', hcalls, hcall⟩ :=
    h.tick.tick.tick.toProvides.reaches_call hbody.next (h.tick.find_self rfl)
    (.cons hless (.cons hmore (.nil _))) rfl (hdepth.mono (Nat.le_succ depth))
  refine ⟨s', env', hcalls, fun tasks => ?_⟩
  have hbranch := h.reaches_branch hbody hdepth tasks
  rw [if_neg (by omega)] at hbranch
  exact hbranch.trans (hcall tasks)

/-- **A loop of tail calls** needs the depth of one round, however often it goes round. -/
theorem Store.Loops.exists_gives {n : Nat} (h : s.Loops body env n acc)
    (hbody : IsLoop body test next less more) (hdepth : settings.Allows (depth + 1)) :
    ∃ s', Gives settings (.eval body env) depth s (.number (.ofInt (n + acc))) s' := by
  induction n generalizing s env acc with
  | zero =>
    refine ⟨s.tick, ?_⟩
    rw [Nat.cast_zero, Int.zero_add]
    exact h.gives_last hbody hdepth
  | succ n ih =>
    obtain ⟨s₁, env₁, hround, hreaches⟩ := h.reaches_next hbody hdepth
    obtain ⟨s', hrest⟩ := ih hround
    refine ⟨s', fun tasks => (hreaches tasks).trans ?_⟩
    have hsum : (n : Int) + (acc + 1) = (n + 1 : Nat) + acc := by omega
    rw [← hsum]
    exact hrest tasks

end Loop

/-! ### A recursion that waits -/

/-- The body is `(if (= n 0) 0 (+ 1 (count (- n 1))))`, with these parts. -/
structure IsCount (body test sum next less : Value) : Prop where
  body : body.IsForm "if" [test, .number (.ofInt 0), sum]
  test : test.IsForm "=" [.symbol "n", .number (.ofInt 0)]
  sum : sum.IsForm "+" [.number (.ofInt 1), next]
  next : next.IsForm "count" [less]
  less : less.IsForm "-" [.symbol "n", .number (.ofInt 1)]

/-- The binding of the parameter of the recursion. -/
def countBindings (n : Int) : Bindings := [("n", .number (.ofInt n))]

/-- The store of a call of the recursion. -/
abbrev Store.Counts (s : Store) (body : Value) (env : FrameId) (n : Int) : Prop :=
  s.Calls "count" ⟨["n"], none⟩ body env (countBindings n)

/-- The tasks that wait for a call inside the sum, before those that wait for the sum. -/
def sumTasks (env : FrameId) (tasks : List Task) : List Task :=
  .leave :: .operand (.object (.primitive .add)) [.number (.ofInt 1)] [] env :: tasks

section Count

open Config

variable {settings : Settings} {depth : Nat} {s : Store} {env : FrameId}
    {body test sum next less : Value}
variable {n : Int}

theorem Store.Counts.reaches_branch (h : s.Counts body env n)
    (hbody : IsCount body test sum next less) (hdepth : settings.Allows (depth + 1))
    (tasks : List Task) :
    Reaches settings ⟨.eval body env, tasks, depth, s⟩
      ⟨.eval (if n = 0 then .number (.ofInt 0) else sum) env, tasks, depth, s.tick⟩ :=
  Store.Calls.reaches_branch h (by decide) ⟨rfl, rfl⟩ rfl hbody.body hbody.test hdepth

theorem Store.Counts.gives_last (h : s.Counts body env 0) (hbody : IsCount body test sum next less)
    (hdepth : settings.Allows (depth + 1)) :
    Gives settings (.eval body env) depth s (.number (.ofInt 0)) s.tick :=
  fun tasks => (h.reaches_branch hbody hdepth tasks).trans (gives_number _ tasks)

/-- The call inside the sum is evaluated one level deeper, above the tasks that add one to its
value. -/
theorem Store.Counts.reaches_inner (h : s.Counts body env n)
    (hbody : IsCount body test sum next less) (hn : n ≠ 0) (hdepth : settings.Allows (depth + 1))
    (tasks : List Task) :
    Reaches settings ⟨.eval body env, tasks, depth, s⟩
      ⟨.eval next env, sumTasks env tasks, depth + 1, s.tick⟩ := by
  have hdepth' : settings.Allows depth := hdepth.mono (Nat.le_succ depth)
  have hbranch := h.reaches_branch hbody hdepth tasks
  rw [if_neg hn] at hbranch
  have hone : GivesAll settings env depth s.tick [.number (.ofInt 1)] [.number (.ofInt 1)] s.tick :=
    .cons (gives_enter_number hdepth' _) (.nil _)
  have hsum : Reaches settings ⟨.eval sum env, tasks, depth, s.tick⟩ ⟨.enter next env,
      .operand (.object (.primitive .add)) [.number (.ofInt 1)] [] env :: tasks, depth, s.tick⟩ :=
    reaches_operands hbody.sum (h.tick.find_primitive .add (by decide) rfl) rfl hdepth' hone
  exact hbranch.trans (hsum.trans (reaches_enter hdepth'))

/-- **Another call** is evaluated one level deeper. -/
theorem Store.Counts.reaches_next {n : Nat} (h : s.Counts body env (n + 1 : Nat))
    (hbody : IsCount body test sum next less) (hdepth : settings.Allows (depth + 2)) :
    ∃ s' env', s'.Counts body env' n ∧ ∀ tasks, Reaches settings ⟨.eval body env, tasks, depth, s⟩
      ⟨.eval body env', sumTasks env tasks, depth + 1, s'⟩ := by
  have hdepth' : settings.Allows (depth + 1) := hdepth.mono (Nat.le_succ _)
  have hless :
      Gives settings (.enter less env) (depth + 1) s.tick (.number (.ofInt n)) s.tick.tick :=
    h.tick.gives_primitive (p := .sub) (by decide) rfl rfl hbody.less
      (fun stamp => Primitive.run_pred stamp n)
      hdepth
  obtain ⟨s', env', hcalls, hcall⟩ :=
    h.tick.tick.toProvides.reaches_call hbody.next (h.tick.find_self rfl)
    (.cons hless (.nil _)) rfl hdepth'
  exact ⟨s', env', hcalls,
    fun tasks => (h.reaches_inner hbody (by omega) hdepth' tasks).trans (hcall _)⟩

/-- The value of the call comes back and one is added. -/
theorem reaches_sum (m : Int) (tasks : List Task) :
    Reaches settings ⟨.ret (.number (.ofInt m)), sumTasks env tasks, depth + 1, s⟩
      ⟨.ret (.number (.ofInt (1 + m))), tasks, depth, s.tick⟩ := by
  have hleave : Reaches settings ⟨.ret (.number (.ofInt m)), sumTasks env tasks, depth + 1, s⟩
      ⟨.ret (.number (.ofInt m)),
        .operand (.object (.primitive .add)) [.number (.ofInt 1)] [] env :: tasks, depth, s⟩ :=
          .single rfl
  have hoperand : Reaches settings ⟨.ret (.number (.ofInt m)),
        .operand (.object (.primitive .add)) [.number (.ofInt 1)] [] env :: tasks, depth, s⟩
      ⟨.invoke (.object (.primitive .add)) [.number (.ofInt 1), .number (.ofInt m)],
        tasks, depth, s⟩ :=
    .single rfl
  exact hleave.trans (hoperand.trans (reaches_primitive (Primitive.run_add s.clock 1 m)))

/-- **A recursion within the bound**: the number of calls is the depth that it needs beyond that of
one. -/
theorem Store.Counts.exists_gives {n : Nat} (h : s.Counts body env n)
    (hbody : IsCount body test sum next less) (hdepth : settings.Allows (depth + n + 1)) :
    ∃ s', Gives settings (.eval body env) depth s (.number (.ofInt n)) s' := by
  induction n generalizing s env depth with
  | zero => exact ⟨s.tick, h.gives_last hbody hdepth⟩
  | succ n ih =>
    have hless : settings.Allows (depth + 2) := hdepth.mono (by omega)
    have hinner : settings.Allows (depth + 1 + n + 1) := hdepth.mono (by omega)
    obtain ⟨s₁, env₁, hcall, hreaches⟩ := h.reaches_next hbody hless
    obtain ⟨s', hrest⟩ := ih hcall hinner
    refine ⟨s'.tick, fun tasks => (hreaches tasks).trans ((hrest _).trans ?_)⟩
    have hsum : 1 + (n : Int) = (n + 1 : Nat) := by omega
    rw [← hsum]
    exact reaches_sum n tasks

/-- **A recursion beyond the bound** goes too deep. -/
theorem Store.Counts.exceeds {n : Nat} (h : s.Counts body env n)
    (hbody : IsCount body test sum next less) (hdepth : ¬ settings.Allows (depth + n + 1))
    (tasks : List Task) :
    Exceeds settings ⟨.eval body env, tasks, depth, s⟩ := by
  induction n generalizing s env depth tasks with
  | zero => exact h.exceeds_branch (by decide) ⟨rfl, rfl⟩ hbody.body hbody.test hdepth
  | succ n ih =>
    by_cases htest : settings.Allows (depth + 1)
    · by_cases hless : settings.Allows (depth + 2)
      · -- the next call starts, one level deeper, and fewer calls are left by one
        obtain ⟨s', env', hcall, hreaches⟩ := h.reaches_next hbody hless
        have hdepth' : ¬ settings.Allows (depth + 1 + n + 1) :=
          fun hallows => hdepth (hallows.mono (by omega))
        exact (hreaches tasks).exceeds (ih hcall hdepth' _)
      · -- the argument of the next call already goes too deep
        have hform : next.IsForm "count" ([] ++ [less]) := hbody.next
        have hnext : Reaches settings ⟨.eval next env, sumTasks env tasks, depth + 1, s.tick⟩
            ⟨.enter less env,
              .operand (.object (.closure 0 "count")) [] [] env :: sumTasks env tasks,
              depth + 1, s.tick⟩ :=
          reaches_operands hform (h.tick.find_self rfl) rfl htest (.nil _)
        have hinner := h.reaches_inner hbody (by omega) htest tasks
        exact (hinner.trans hnext).exceeds
          (h.tick.exceeds_primitive (p := .sub) (by decide) rfl hbody.less hless)
    · exact h.exceeds_branch (by decide) ⟨rfl, rfl⟩ hbody.body hbody.test htest

end Count

/-! ### Definitions and calls -/

/-- The expression defines a procedure with a body of one form. -/
def Value.IsDefinition (x : Value) (name : String) (formals : Formals String) (body : Value) :
    Prop :=
  ∃ l params, x.IsForm "define" [.pair l (.symbol name) params, body] ∧
    Formals.parse? params = some formals

/-- After the definition the call has the value `v` if there is no bound on the depth or one that is
not below `need`.  Otherwise the definition is fine too, and the call goes too deep. -/
def NeedsBound (definition call : Sexp) (need : Nat) (v : Value) : Prop :=
  ∀ (bound : Int) (recording : Bool),
    let i := Interpreter.start bound recording
    let xs : List (Expression × FrameId) :=
      [(.written definition, Store.global), (.written call, Store.global)]
    if bound ≤ 0 ∨ need ≤ bound then ∃ i', i.EvaluatesAll xs [.value .void, .value v] i'
    else ∃ e i', e.kind = .depthExceeded ∧ i.EvaluatesAll xs [.value .void, .error e] i'

theorem Settings.allows_ofBound_iff (bound : Int) (depth : Nat) :
    (Settings.ofBound bound).Allows depth ↔ bound ≤ 0 ∨ depth < bound := by
  unfold Settings.Allows Settings.ofBound
  split_ifs with hpos
  · simp only [Option.any_some, decide_eq_false_iff_not]
    omega
  · simp only [Option.any_none, true_iff]
    omega

section Definitions

open Config

variable {settings : Settings} {name : String} {formals : Formals String} {x body v : Value}
variable {definition call : Sexp} {need : Nat}

/-- The definition of a procedure in a new interpreter. -/
theorem gives_definition (hx : x.IsDefinition name formals body) (hdepth : settings.Allows 0)
    (recording : Bool) :
    ∃ s, s.Provides name formals body ∧
      Gives settings (.enter x Store.global) 0 (Store.initial recording).tick .void s := by
  obtain ⟨l, params, hform, hparams⟩ := hx
  have hfind : (Store.initial recording).tick.find Store.global "define" =
      some (Store.global, .object (.keyword .define)) := by
    have hget : Bindings.get? Store.initialBindings "define" = some (.object (.keyword .define)) :=
      Store.get?_initialBindings_keyword .define
    have hframe : (Store.initial recording).tick.frames[Store.global]? =
        some ⟨none, Store.initialBindings⟩ := rfl
    rw [Store.find, hframe]
    simp only [hget]
  have hgives :
      Gives settings (.eval x Store.global) (0 + 1) (Store.initial recording).tick .void _ :=
    gives_define hform hfind hparams (List.cons_ne_nil _ _)
  exact ⟨_, ⟨rfl, params, rfl, hparams⟩, hgives.enter hdepth⟩

/-- **The bound that a call needs** follows from what its body does at depth one. -/
theorem needsBound_of_body (ns : List Number)
    (hdefinition : (Value.ofSexp 0 definition).IsDefinition name formals body)
    (hcall : ∀ stamp, (Value.ofSexp stamp call).IsForm name (ns.map .number))
    (hcount : formals.arity.accepts ns.length = true) (hneed : 1 ≤ need)
    (hgives : ∀ {settings : Settings} {s : Store} {env : FrameId} {stamp : Nat},
      s.Calls name formals body env (formals.bindings stamp (ns.map .number)) →
      settings.Allows need → ∃ s', Gives settings (.eval body env) 1 s v s')
    (hexceeds : ∀ {settings : Settings} {s : Store} {env : FrameId} {stamp : Nat},
      s.Calls name formals body env (formals.bindings stamp (ns.map .number)) →
      ¬ settings.Allows need → ∀ tasks, Exceeds settings ⟨.eval body env, tasks, 1, s⟩) :
    NeedsBound definition call (need + 1) v := by
  intro bound recording i xs
  have hallows := Settings.allows_ofBound_iff bound
  have hzero : (Settings.ofBound bound).Allows 0 := (hallows 0).2 (by omega)
  obtain ⟨s, hprovides, hdefine⟩ := gives_definition hdefinition hzero recording
  have hfirst : (i.express (.written definition)).2.EvaluatesTo
      (i.express (.written definition)).1 Store.global
      (.value .void) ⟨.ofBound bound, s⟩ := Interpreter.evaluatesTo_of_gives hdefine
  -- the call starts at depth one, if its operator may be evaluated there
  have hform := hcall s.clock
  have hself := hprovides.tick.find_self
  have hbody (hone : (Settings.ofBound bound).Allows 1) := hprovides.tick.reaches_call hform hself
    (givesAll_numbers hone ns) (by rwa [List.length_map]) hone
  split_ifs with hbound
  · have hdeep : (Settings.ofBound bound).Allows need := (hallows need).2 (by omega)
    obtain ⟨s₁, env, hcalls, hreaches⟩ := hbody (hdeep.mono hneed)
    obtain ⟨s', hvalue⟩ := hgives hcalls hdeep
    have hgives :
        Gives (.ofBound bound) (.eval (Value.ofSexp s.clock call) Store.global) 1 s.tick v s' :=
      fun tasks => (hreaches tasks).trans (hvalue tasks)
    have hsecond :=
      Interpreter.evaluatesTo_of_gives (i := ⟨.ofBound bound, s.tick⟩) (hgives.enter hzero)
    exact ⟨_, .cons hfirst (.cons hsecond (.nil _))⟩
  · have hdeep : ¬ (Settings.ofBound bound).Allows need := by
      rw [hallows]
      omega
    have hdepth (tasks : List Task) :
        Exceeds (.ofBound bound)
          ⟨.eval (Value.ofSexp s.clock call) Store.global, tasks, 1, s.tick⟩ := by
      by_cases hone : (Settings.ofBound bound).Allows 1
      · obtain ⟨s₁, env, hcalls, hreaches⟩ := hbody hone
        exact (hreaches tasks).exceeds (hexceeds hcalls hdeep tasks)
      · exact exceeds_combination hform hself rfl hone
    obtain ⟨e, i', hkind, hsecond⟩ :=
      Interpreter.exists_evaluatesTo_of_exceeds (i := ⟨.ofBound bound, s.tick⟩)
      (hdepth _).enter
    exact ⟨e, i', hkind, .cons hfirst (.cons hsecond (.nil _))⟩

end Definitions

/-! ### The two recursions -/

/-- `(define (loop n acc) (if (= n 0) acc (loop (- n 1) (+ acc 1))))` -/
def loopDefinition : Sexp :=
  .ofList [.symbol "define", .ofList [.symbol "loop", .symbol "n", .symbol "acc"] .nil,
    .ofList [.symbol "if", .ofList [.symbol "=", .symbol "n", .number (.ofInt 0)] .nil,
      .symbol "acc",
      .ofList [.symbol "loop", .ofList [.symbol "-", .symbol "n", .number (.ofInt 1)] .nil,
        .ofList [.symbol "+", .symbol "acc", .number (.ofInt 1)] .nil] .nil] .nil] .nil

/-- `(loop n 0)` -/
def loopCall (n : Nat) : Sexp :=
  .ofList [.symbol "loop", .number (.ofInt n), .number (.ofInt 0)] .nil

/-- `(define (count n) (if (= n 0) 0 (+ 1 (count (- n 1)))))` -/
def countDefinition : Sexp :=
  .ofList [.symbol "define", .ofList [.symbol "count", .symbol "n"] .nil,
    .ofList [.symbol "if", .ofList [.symbol "=", .symbol "n", .number (.ofInt 0)] .nil,
      .number (.ofInt 0),
      .ofList [.symbol "+", .number (.ofInt 1),
        .ofList [.symbol "count", .ofList [.symbol "-", .symbol "n", .number (.ofInt 1)] .nil] .nil]
          .nil] .nil] .nil

/-- `(count n)` -/
def countCall (n : Nat) : Sexp := .ofList [.symbol "count", .number (.ofInt n)] .nil

theorem loop_needsBound (n : Nat) :
    NeedsBound loopDefinition (loopCall n) 3 (.number (.ofInt n)) := by
  obtain ⟨body, test, next, less, more, hdefinition, hbody⟩ : ∃ body test next less more,
      (Value.ofSexp 0 loopDefinition).IsDefinition "loop" ⟨["n", "acc"], none⟩ body ∧
        IsLoop body test next less more :=
    ⟨_, _, _, _, _, ⟨_, _, ⟨_, _, rfl, rfl⟩, rfl⟩,
      ⟨_, _, rfl, rfl⟩, ⟨_, _, rfl, rfl⟩, ⟨_, _, rfl, rfl⟩, ⟨_, _, rfl, rfl⟩, ⟨_, _, rfl, rfl⟩⟩
  refine needsBound_of_body [.ofInt n, .ofInt 0] hdefinition (fun stamp => ⟨_, _, rfl, rfl⟩) rfl
    (Nat.le_succ 1) ?_ ?_
  · intro settings s env stamp hcalls hdepth
    have hloops : s.Loops body env n 0 := hcalls
    obtain ⟨s', hgives⟩ := hloops.exists_gives hbody hdepth
    rw [Int.add_zero] at hgives
    exact ⟨s', hgives⟩
  · intro settings s env stamp hcalls hdepth tasks
    exact hcalls.exceeds_branch (by decide) ⟨rfl, rfl⟩ hbody.body hbody.test hdepth

theorem count_needsBound (n : Nat) :
    NeedsBound countDefinition (countCall n) (n + 3) (.number (.ofInt n)) := by
  obtain ⟨body, test, sum, next, less, hdefinition, hbody⟩ : ∃ body test sum next less,
      (Value.ofSexp 0 countDefinition).IsDefinition "count" ⟨["n"], none⟩ body ∧
        IsCount body test sum next less :=
    ⟨_, _, _, _, _, ⟨_, _, ⟨_, _, rfl, rfl⟩, rfl⟩,
      ⟨_, _, rfl, rfl⟩, ⟨_, _, rfl, rfl⟩, ⟨_, _, rfl, rfl⟩, ⟨_, _, rfl, rfl⟩, ⟨_, _, rfl, rfl⟩⟩
  have hneed : 1 + n + 1 = n + 2 := by omega
  refine needsBound_of_body [.ofInt n] hdefinition (fun stamp => ⟨_, _, rfl, rfl⟩) rfl
    (by omega) ?_ ?_
  · intro settings s env stamp hcalls hdepth
    have hcounts : s.Counts body env n := hcalls
    exact hcounts.exists_gives hbody (hneed ▸ hdepth)
  · intro settings s env stamp hcalls hdepth tasks
    have hcounts : s.Counts body env n := hcalls
    exact hcounts.exceeds hbody (hneed ▸ hdepth) tasks

/-- **Tail calls need no depth, other calls need one level each.**  In a new interpreter, with any
bound on the depth and for every `n`: the call `(loop n 0)` of a loop by tail calls has the value
`n` if the bound is at least three or there is none, and the call `(count n)` of a recursion that
adds one to the value of each call has the value `n` if the bound is at least `n + 3` or there is
none.  Under a smaller bound they go too deep. -/
theorem recursion_depth (n : Nat) :
    NeedsBound loopDefinition (loopCall n) 3 (.number (.ofInt n)) ∧
    NeedsBound countDefinition (countCall n) (n + 3) (.number (.ofInt n)) :=
  ⟨loop_needsBound n, count_needsBound n⟩

end Scheme
