import Scheme.Eval.Prelude
import Scheme.Eval.Store

/-!
# The evaluator

Evaluation is a machine.  A configuration has a control, which says what happens next, the tasks
that wait for its result, the depth of nested evaluations and the store.  A step performs one
transition; the last form of a body and the chosen branch of a conditional replace the current
evaluation, so that tail calls leave no task behind.

* `Control`, `Task`, `Config`: the states of the machine;
* `Config.step`: one transition;
* `Config.outcome?`: the result of a machine that has stopped;
* `Config.run`: steps until the machine stops or the fuel is used up.
-/

namespace Scheme

/-- The settings of an evaluation. -/
structure Settings where
  /-- The largest depth of nested evaluations, if there is one. -/
  limit : Option Nat

/-- What the machine does next. -/
inductive Control where
  /-- Start a nested evaluation. -/
  | enter (x : Value) (env : FrameId)
  /-- Evaluate at the current depth. -/
  | eval (x : Value) (env : FrameId)
  /-- Expand a template at a level of quasiquotation. -/
  | expand (x : Value) (level : Nat) (env : FrameId)
  /-- Call a procedure, with the last form of its body in tail position. -/
  | invoke (f : Value) (args : List Value)
  /-- Call a procedure, with all forms of its body nested. -/
  | apply (f : Value) (args : List Value)
  /-- Hand a value to the next task. -/
  | ret (v : Value)
  /-- Hand an error to the next task. -/
  | fail (e : EvalError)
  /-- Nothing: an operation has broken off, or has ended with an error of the layers below. -/
  | stuck (b : Breach)

/-- What waits for a result. -/
inductive Task where
  /-- Come back from a nested evaluation. -/
  | leave
  /-- The value is the procedure of a combination. -/
  | operator (form operands : Value) (env : FrameId)
  /-- The value is an argument; those before it are kept last first. -/
  | operand (f : Value) (before : List Value) (after : List Value) (env : FrameId)
  /-- The value chooses a branch. -/
  | branch (yes : Value) (no : Option Value) (env : FrameId)
  /-- Go on with forms, the last in tail position. -/
  | forms (rest : List Value) (env : FrameId)
  /-- Go on with forms, all nested. -/
  | body (rest : List Value) (env : FrameId)
  /-- Bind a name to the value. -/
  | define (name : String) (env : FrameId)
  /-- Change the binding of a name to the value. -/
  | assign (name : String) (env : FrameId)
  /-- An error without a name is that of a primitive. -/
  | named (name : String)
  /-- Record an error in the evaluation of a form. -/
  | report (x : Value)
  /-- The value is the first part of an expanded pair; expand the second. -/
  | expandCdr (cdr : Value) (level : Nat) (env : FrameId)
  /-- The value is the second part of an expanded pair, whose label is made with its first part. -/
  | joinCar (label : Label) (car : Value)
  /-- The value is the operand of a nested quotation. -/
  | requote (keyword : String)
  /-- The value is the list of the items of an expanded vector. -/
  | gather
  /-- The value is a list to be spliced before the expansion of the rest. -/
  | spliceRest (rest : Value) (env : FrameId)
  /-- The value is the expansion after a list to be spliced. -/
  | spliceInto (items : Value)

/-- A state of the machine. -/
structure Config where
  control : Control
  tasks : List Task
  depth : Nat
  store : Store

/-- The results of a machine. -/
inductive Outcome where
  | value (v : Value)
  | error (e : EvalError)
  /-- An operation has broken off, or has ended with an error of the layers below. -/
  | stuck (b : Breach)
  /-- The fuel is used up. -/
  | unfinished

namespace Config

/-! ### Small steps of control -/

/-- Go on with another control. -/
def goto (c : Config) (control : Control) : Config := { c with control := control }

/-- Let a task wait. -/
def push (c : Config) (task : Task) : Config := { c with tasks := task :: c.tasks }

/-- Go on with another control while a task waits. -/
def await (c : Config) (task : Task) (control : Control) : Config := (c.push task).goto control

/-- Hand over a value. -/
def ret (c : Config) (v : Value) : Config := c.goto (.ret v)

/-- Hand over an error. -/
def fail (c : Config) (e : EvalError) : Config := c.goto (.fail e)

/-- Hand over an error of evaluation; with any other failure the machine is stuck. -/
def throw (c : Config) : Failure → Config
  | .error e => c.fail e
  | .breach b => c.goto (.stuck b)

/-- Change the store. -/
def mapStore (c : Config) (f : Store → Store) : Config := { c with store := f c.store }

/-- Make a value from a fresh stamp and hand it over. -/
def make (c : Config) (f : Nat → Value) : Config :=
  let stamp := c.store.clock
  (c.mapStore Store.tick).ret (f stamp)

/-! ### Procedures -/

/-- Evaluate forms, the last in tail position.  There must be a last one. -/
def evalForms (c : Config) (forms : List Value) (env : FrameId) : Config :=
  match forms with
  | [] => c.throw (.panic (.slice 0 (-1) 0))
  | [x] => c.goto (.eval x env)
  | x :: rest => c.await (.forms rest env) (.enter x env)

/-- Evaluate forms, all nested. -/
def evalBody (c : Config) (forms : List Value) (env : FrameId) : Config :=
  match forms with
  | [] => c.ret .void
  | x :: rest => c.await (.body rest env) (.enter x env)

/-- Call a primitive.  Only a value that it gives can have labels of its own. -/
def callPrimitive (c : Config) (p : Primitive) (args : List Value) : Config :=
  match p.shape.run c.store.clock args with
  | .error failure => c.throw (failure.named p.name)
  | .ok (.give v) => (c.mapStore Store.tick).ret v
  | .ok (.print text) => (c.mapStore fun s => s.write text).ret .void
  | .ok (.evaluate x) => (c.push (.named p.name)).await (.report x) (.enter x Store.global)
  | .ok (.call f args) => c.await (.named p.name) (.apply f args)

/-- Bind the arguments of a closure and go on with its body, which must have a last form. -/
def callClosure (c : Config) (id : Nat) (name : String) (args : List Value)
    (body : Config → List Value → FrameId → Config) : Config :=
  match c.store.closures[id]? with
  | none => c.throw (.panic (.closure id))
  | some closure =>
    match c.store.bindParameters name closure.params args with
    | .error failure => c.throw failure
    | .ok bindings =>
      if closure.body.isEmpty then c.throw (.panic (.slice 0 (-1) 0))
      else
        let env := c.store.nextFrame
        let c := c.mapStore fun s =>
          (s.addCall closure.frame bindings).record (.call name args.length)
        body c closure.body env

/-- Call a procedure and go on with the body of a closure by `body`, or with `otherwise` if the
value is no procedure. -/
def call (c : Config) (f : Value) (args : List Value)
    (body : Config → List Value → FrameId → Config) (otherwise : Config → Config) : Config :=
  match f with
  | .object (.primitive p) => c.callPrimitive p args
  | .object (.closure id name) => c.callClosure id name args body
  | _ => otherwise c

/-- Evaluate the arguments of a combination from left to right, then call its procedure. -/
def evalOperands (c : Config) (f : Value) (before : List Value) (after : List Value)
    (env : FrameId) : Config :=
  match after with
  | [] => c.goto (.invoke f before.reverse)
  | x :: rest => c.await (.operand f before rest env) (.enter x env)

/-! ### Special forms -/

/-- The special form that the head of a form denotes. -/
def headKeyword? (c : Config) (head : Value) (env : FrameId) : Option Keyword :=
  match head with
  | .symbol s => (c.store.find env s).bind fun (_, v) => Value.keyword? v
  | _ => none

/-- Make the closure of a form and hand it to `use`. -/
def makeClosure (c : Config) (form : Value) (name : String) (params : Value) (body : List Value)
    (env : FrameId) (use : Config → Value → Config) : Config :=
  match Formals.parse? params, body with
  | some _, _ :: _ =>
    let id := c.store.nextClosure
    use (c.mapStore fun s => s.addClosure ⟨params, body, env⟩) (.object (.closure id name))
  | _, _ => c.fail (.badForm Keyword.lambda.name form.write)

/-- Bind a name in a frame. -/
def bind (c : Config) (name : String) (env : FrameId) (v : Value) : Config :=
  (c.mapStore fun s => (s.record (.define name)).define env name v).ret .void

/-- Evaluate a definition. -/
def evalDefine (c : Config) (form : Value) (operands : List Value) (env : FrameId) : Config :=
  match operands with
  | [.symbol name] => c.bind name env .void
  | [.symbol name, x] => c.await (.define name env) (.enter x env)
  | .pair _ (.symbol name) params :: body =>
    c.makeClosure form name params body env fun c v => c.bind name env v
  | _ => c.fail (.badForm Keyword.define.name form.write)

/-- Evaluate the special form `k` with operands. -/
def evalKeyword (c : Config) (k : Keyword) (form : Value) (operands : List Value)
    (env : FrameId) : Config :=
  match k, operands with
  | .quote, [x] => c.ret x
  | .conditional, [test, yes] => c.await (.branch yes none env) (.enter test env)
  | .conditional, [test, yes, no] => c.await (.branch yes (some no) env) (.enter test env)
  | .sequence, [] => c.ret .void
  | .sequence, forms => c.evalForms forms env
  | .lambda, params :: body => c.makeClosure form "" params body env ret
  | .define, operands => c.evalDefine form operands env
  | .assign, [.symbol name, x] =>
    match c.store.lookFor env name with
    | none => c.fail (.unbound name)
    | some _ => c.await (.assign name env) (.enter x env)
  | .quasiquote, [x] => c.goto (.expand x 1 env)
  | _, _ => c.fail (.badForm k.name form.write)

/-- Evaluate a form. -/
def evalForm (c : Config) (form head tail : Value) (env : FrameId) : Config :=
  match c.headKeyword? head env with
  | none => c.await (.operator form tail env) (.enter head env)
  | some k =>
    match tail.elements? with
    | none => c.fail (.badForm k.name form.write)
    | some operands => c.evalKeyword k form operands env

/-- Evaluate an expression. -/
def evalStep (c : Config) (x : Value) (env : FrameId) : Config :=
  match x with
  | .symbol s =>
    match c.store.lookup env s with
    | .error e => c.fail e
    | .ok v =>
      match v.keyword? with
      | some k => c.fail (.badForm k.name x.write)
      | none => c.ret v
  | .nil => c.fail { kind := .emptyCombination }
  | .pair _ head tail => c.evalForm x head tail env
  | _ => c.ret x

/-! ### Quasiquotation -/

/-- The keyword and the operand of a two-element list headed by a keyword of quasiquotation. -/
def quasiForm? : Value → Option (Keyword × Value)
  | .pair _ (.symbol s) (.pair _ x .nil) =>
    if s = Keyword.quasiquote.name then some (.quasiquote, x)
    else if s = Keyword.unquote.name then some (.unquote, x)
    else if s = Keyword.unquoteSplicing.name then some (.unquoteSplicing, x)
    else none
  | _ => none

/-- Keep a nested quotation, with its operand expanded at the given level. -/
def requote (c : Config) (k : Keyword) (x : Value) (level : Nat) (env : FrameId) : Config :=
  c.await (.requote k.name) (.expand x level env)

/-- Expand the parts of a pair. -/
def expandPair (c : Config) (car cdr : Value) (level : Nat) (env : FrameId) : Config :=
  match quasiForm? car with
  | some (.unquoteSplicing, x) =>
    if level = 1 then c.await (.spliceRest cdr env) (.enter x env)
    else
      (c.push (.expandCdr cdr level env)).requote .unquoteSplicing x (level - 1) env
  | _ => c.await (.expandCdr cdr level env) (.expand car level env)

/-- Expand a template. -/
def expandStep (c : Config) (x : Value) (level : Nat) (env : FrameId) : Config :=
  match x with
  | .pair _ car cdr =>
    match quasiForm? x with
    | some (.unquote, y) =>
      if level = 1 then c.goto (.enter y env) else c.requote .unquote y (level - 1) env
    | some (.quasiquote, y) => c.requote .quasiquote y (level + 1) env
    | _ => c.expandPair car cdr level env
  | .vector _ items =>
    let stamp := c.store.clock
    (c.mapStore Store.tick).await .gather (.expand (Value.list stamp items .nil) level env)
  | _ => c.ret x

/-! ### Tasks -/

/-- Hand a value to a task. -/
def resume (c : Config) (task : Task) (v : Value) : Config :=
  match task with
  | .leave => { c with control := .ret v, depth := c.depth - 1 }
  | .operator form operands env =>
    if v.isProcedure then
      match operands.elements? with
      | some xs => c.evalOperands v [] xs env
      | none => c.fail (.notList form.write)
    else c.fail (.notCallable v.write)
  | .operand f before after env => c.evalOperands f (v :: before) after env
  | .branch yes no env =>
    if v.isTrue then c.goto (.eval yes env)
    else
      match no with
      | some x => c.goto (.eval x env)
      | none => c.ret .void
  | .forms rest env => c.evalForms rest env
  | .body rest env => if rest.isEmpty then c.ret v else c.evalBody rest env
  | .define name env => c.bind name env v
  | .assign name env =>
    match c.store.lookFor env name with
    | some frame => (c.mapStore fun s => s.define frame name v).ret .void
    | none => c.fail (.unbound name)
  | .named _ => c.ret v
  | .report _ => c.ret v
  | .expandCdr cdr level env =>
    let stamp := c.store.clock
    (c.mapStore Store.tick).await (.joinCar ⟨stamp, 0⟩ v) (.expand cdr level env)
  | .joinCar label car => c.ret (.pair label car v)
  | .requote keyword => c.make fun stamp => Value.list stamp [.symbol keyword, v] .nil
  | .gather =>
    match v.elements? with
    | some items => c.make fun stamp => .vector ⟨stamp, 0⟩ items
    | none => c.fail (.notList v.write)
  | .spliceRest rest env => c.await (.spliceInto v) (.expand rest 1 env)
  | .spliceInto items =>
    match items.elements? with
    | some xs => c.make fun stamp => Value.list stamp xs v
    | none => c.fail { EvalError.notList items.write with name := Keyword.unquoteSplicing.name }

/-- Hand an error to a task. -/
def unwind (c : Config) (task : Task) (e : EvalError) : Config :=
  match task with
  | .leave => { c with control := .fail e, depth := c.depth - 1 }
  | .named name => c.fail (e.named name)
  | .report x => (c.mapStore fun s => s.record (.failure x.write e.message)).fail e
  | _ => c.fail e

/-! ### The machine -/

/-- Start a nested evaluation one level deeper, unless that is too deep. -/
def enterStep (settings : Settings) (c : Config) (x : Value) (env : FrameId) : Config :=
  let c := { c.push .leave with depth := c.depth + 1 }
  if settings.limit.any (· < c.depth) then c.fail (.depthExceeded x.write) else c.goto (.eval x env)

/-- The configuration without its first task. -/
def popTask (c : Config) (rest : List Task) : Config := { c with tasks := rest }

/-- One transition.  A machine that has stopped stays as it is. -/
def step (settings : Settings) (c : Config) : Config :=
  match c.control with
  | .enter x env => c.enterStep settings x env
  | .eval x env => c.evalStep x env
  | .expand x level env => c.expandStep x level env
  | .invoke f args => c.call f args evalForms (throw · (.panic (.assertion "procedure")))
  | .apply f args => c.call f args evalBody (fail · (.notCallable f.write))
  | .ret v =>
    match c.tasks with
    | [] => c
    | task :: rest => (c.popTask rest).resume task v
  | .fail e =>
    match c.tasks with
    | [] => c
    | task :: rest => (c.popTask rest).unwind task e
  | .stuck _ => c

/-- The result of a machine that has stopped. -/
def outcome? (c : Config) : Option Outcome :=
  match c.control, c.tasks with
  | .ret v, [] => some (.value v)
  | .fail e, [] => some (.error e)
  | .stuck b, _ => some (.stuck b)
  | _, _ => none

/-- Steps until the machine stops, at most `fuel` of them. -/
def run (settings : Settings) : (fuel : Nat) → Config → Outcome × Config
  | 0, c => (c.outcome?.getD .unfinished, c)
  | fuel + 1, c =>
    match c.outcome? with
    | some outcome => (outcome, c)
    | none => run settings fuel (c.step settings)

/-- A machine that has stopped stays as it is. -/
theorem step_of_outcome {settings : Settings} {c : Config} {o : Outcome} (h : c.outcome? = some o) :
    c.step settings = c := by
  unfold outcome? at h
  unfold step
  split at h
  · rename_i hc ht
    rw [hc]; dsimp only; rw [ht]
  · rename_i hc ht
    rw [hc]; dsimp only; rw [ht]
  · rename_i hc
    rw [hc]
  · exact absurd h nofun

/-- The result of a machine that has stopped does not depend on the fuel. -/
theorem run_of_outcome {settings : Settings} {c : Config} {o : Outcome} (h : c.outcome? = some o)
    (fuel : Nat) : c.run settings fuel = (o, c) := by
  cases fuel with
  | zero => unfold run; rw [h]; rfl
  | succ fuel => unfold run; rw [h]

/-- A machine that has not stopped goes on with one step less. -/
theorem run_succ {settings : Settings} {c : Config} (h : c.outcome? = none) (fuel : Nat) :
    c.run settings (fuel + 1) = (c.step settings).run settings fuel := by
  rw [run, h]

end Config

end Scheme
