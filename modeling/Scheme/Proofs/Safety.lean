import Mathlib
import Scheme.Eval.Interpreter
import Scheme.Proofs.Primitives

/-!
# Evaluation is safe

Sound configurations stay sound: a step leads from a sound control, sound tasks and a sound store to
such ones, and the store only grows.  So the machine never gets stuck: no access by an index breaks
off, no parameter of a closure is anything but a symbol, no combination calls anything but a
procedure, no body is without a last form, and no error of the layers below comes out of a
primitive.

* `Control.Sound`, `Task.Sound`, `Config.Sound`: the invariant;
* `Config.Sound.step`: one step preserves it, with one lemma for each function of the machine;
* `Config.Faulty`: what must not happen, with `Config.Sound.not_faulty`;
* `Reachable`: the states of an interpreter that calls lead to, `Visited`: the configurations that
  evaluations in such a state pass through;
* `evaluation_safe`: the main result.
-/

namespace Scheme

/-! ### The invariant -/

/-- The control concerns sound values and frames that exist. -/
def Control.Sound (s : Store) : Control → Prop
  | .enter x env => x.Sound s.closures.size ∧ env < s.frames.size
  | .eval x env => x.Sound s.closures.size ∧ env < s.frames.size
  | .expand x _ env => x.Sound s.closures.size ∧ env < s.frames.size
  | .invoke f args =>
    f.isProcedure = true ∧ f.Sound s.closures.size ∧ ∀ v ∈ args, v.Sound s.closures.size
  | .apply f args => f.Sound s.closures.size ∧ ∀ v ∈ args, v.Sound s.closures.size
  | .ret v => v.Sound s.closures.size
  | .fail e => e.IsKnown
  | .stuck _ => False

/-- The task concerns sound values and frames that exist, forms that are left are not all done, and
the name that is to be changed is bound. -/
def Task.Sound (s : Store) : Task → Prop
  | .leave => True
  | .operator form operands env =>
    form.Sound s.closures.size ∧ operands.Sound s.closures.size ∧ env < s.frames.size
  | .operand f before after env =>
    f.isProcedure = true ∧ f.Sound s.closures.size ∧ (∀ v ∈ before, v.Sound s.closures.size) ∧
      (∀ v ∈ after, v.Sound s.closures.size) ∧ env < s.frames.size
  | .branch yes no env =>
    yes.Sound s.closures.size ∧ (∀ x, no = some x → x.Sound s.closures.size) ∧ env < s.frames.size
  | .forms rest env => rest ≠ [] ∧ (∀ v ∈ rest, v.Sound s.closures.size) ∧ env < s.frames.size
  | .body rest env => (∀ v ∈ rest, v.Sound s.closures.size) ∧ env < s.frames.size
  | .define _ env => env < s.frames.size
  | .assign name env => env < s.frames.size ∧ (s.lookFor env name).isSome = true
  | .named _ => True
  | .report x => x.Sound s.closures.size
  | .expandCdr cdr _ env => cdr.Sound s.closures.size ∧ env < s.frames.size
  | .joinCar _ car => car.Sound s.closures.size
  | .requote _ => True
  | .gather => True
  | .spliceRest rest env => rest.Sound s.closures.size ∧ env < s.frames.size
  | .spliceInto items => items.Sound s.closures.size

theorem Task.Sound.mono {s s' : Store} {t : Task} (h : t.Sound s) (hgrows : s.Grows s') :
    t.Sound s' := by
  have hvalue {v : Value} (hv : v.Sound s.closures.size) : v.Sound s'.closures.size :=
    hv.mono hgrows.closures_le
  have hframe {env : FrameId} (henv : env < s.frames.size) : env < s'.frames.size :=
    hgrows.frame_lt henv
  cases t with
  | leave | named | requote | gather => trivial
  | operator => exact ⟨hvalue h.1, hvalue h.2.1, hframe h.2.2⟩
  | expandCdr | spliceRest => exact ⟨hvalue h.1, hframe h.2⟩
  | operand =>
    exact ⟨h.1, hvalue h.2.1, fun v hv => hvalue (h.2.2.1 v hv),
      fun v hv => hvalue (h.2.2.2.1 v hv), hframe h.2.2.2.2⟩
  | branch => exact ⟨hvalue h.1, fun x hx => hvalue (h.2.1 x hx), hframe h.2.2⟩
  | forms => exact ⟨h.1, fun v hv => hvalue (h.2.1 v hv), hframe h.2.2⟩
  | body => exact ⟨fun v hv => hvalue (h.1 v hv), hframe h.2⟩
  | define => exact hframe h
  | assign => exact ⟨hframe h.1, hgrows.lookFor_isSome h.2⟩
  | report | joinCar | spliceInto => exact hvalue h

namespace Config

/-- The store has grown from `origin` and is sound, and so are the tasks. -/
structure Ready (origin : Store) (c : Config) : Prop where
  grows : origin.Grows c.store
  store : c.store.Sound
  tasks : ∀ t ∈ c.tasks, t.Sound c.store

/-- A configuration whose store has grown from `origin`, with a sound control, tasks and store. -/
structure Sound (origin : Store) (c : Config) : Prop extends Ready origin c where
  control : c.control.Sound c.store

/-! ### Small steps of control -/

section Steps

variable {origin : Store} {c : Config}

theorem Ready.goto (h : c.Ready origin) {control : Control} (hcontrol : control.Sound c.store) :
    (c.goto control).Sound origin :=
  ⟨⟨h.grows, h.store, h.tasks⟩, hcontrol⟩

theorem Ready.push (h : c.Ready origin) {task : Task} (htask : task.Sound c.store) :
    (c.push task).Ready origin :=
  ⟨h.grows, h.store, List.forall_mem_cons.2 ⟨htask, h.tasks⟩⟩

theorem Ready.await (h : c.Ready origin) {task : Task} {control : Control}
    (htask : task.Sound c.store) (hcontrol : control.Sound c.store) :
    (c.await task control).Sound origin :=
  (h.push htask).goto hcontrol

theorem Ready.ret (h : c.Ready origin) {v : Value} (hv : v.Sound c.store.closures.size) :
    (c.ret v).Sound origin :=
  h.goto hv

theorem Ready.fail (h : c.Ready origin) {e : EvalError} (he : e.IsKnown) :
    (c.fail e).Sound origin :=
  h.goto he

theorem Ready.mapStore (h : c.Ready origin) {f : Store → Store} (hgrows : c.store.Grows (f c.store))
    (hstore : (f c.store).Sound) : (c.mapStore f).Ready origin :=
  ⟨h.grows.trans hgrows, hstore, fun t ht => (h.tasks t ht).mono hgrows⟩

theorem Ready.tick (h : c.Ready origin) : (c.mapStore Store.tick).Ready origin :=
  h.mapStore (.of_eq rfl rfl) (h.store.of_eq rfl rfl)

theorem Ready.make (h : c.Ready origin) {f : Nat → Value}
    (hf : ∀ stamp, (f stamp).Sound c.store.closures.size) : (c.make f).Sound origin :=
  h.tick.ret (hf _)

/-! ### Procedures -/

/-- The last of some forms is found, since there is one. -/
theorem Ready.evalForms (h : c.Ready origin) {forms : List Value} {env : FrameId} (hne : forms ≠ [])
    (hforms : ∀ v ∈ forms, v.Sound c.store.closures.size) (henv : env < c.store.frames.size) :
    (c.evalForms forms env).Sound origin := by
  match forms, hne, hforms with
  | [x], _, hforms => exact h.goto ⟨hforms x List.mem_cons_self, henv⟩
  | x :: y :: rest, _, hforms =>
    rw [List.forall_mem_cons] at hforms
    exact h.await ⟨List.cons_ne_nil _ _, hforms.2, henv⟩ ⟨hforms.1, henv⟩

theorem Ready.evalBody (h : c.Ready origin) {forms : List Value} {env : FrameId}
    (hforms : ∀ v ∈ forms, v.Sound c.store.closures.size) (henv : env < c.store.frames.size) :
    (c.evalBody forms env).Sound origin := by
  cases forms with
  | nil => exact h.ret Value.sound_void
  | cons x rest =>
    rw [List.forall_mem_cons] at hforms
    exact h.await ⟨hforms.2, henv⟩ ⟨hforms.1, henv⟩

theorem Ready.callPrimitive (h : c.Ready origin) {args : List Value}
    (hargs : ∀ v ∈ args, v.Sound c.store.closures.size) (p : Primitive) :
    (c.callPrimitive p args).Sound origin := by
  have hrun := p.sound_shape c.store.closures.size c.store.clock args hargs
  unfold Config.callPrimitive
  cases hresult : p.shape.run c.store.clock args with
  | error failure =>
    rw [hresult] at hrun
    obtain ⟨e, hnamed, he⟩ := Failure.IsSafe.named hrun p.name
    simp only [hnamed]
    exact h.fail he
  | ok action =>
    rw [hresult] at hrun
    cases action with
    | give v => exact h.tick.ret hrun
    | print text =>
      have hwrite : (c.mapStore fun s => s.write text).Ready origin :=
        h.mapStore (.of_eq rfl rfl) (h.store.of_eq rfl rfl)
      exact hwrite.ret Value.sound_void
    | evaluate x =>
      have hnamed : (c.push (.named p.name)).Ready origin := h.push trivial
      exact hnamed.await hrun ⟨hrun, h.store.global⟩
    | call f args => exact h.await trivial hrun

/-- The parameters of a closure are bound, or their number is an error, and its body is entered with
its own frame. -/
theorem Ready.callClosure (h : c.Ready origin) {id : Nat} {name : String} {args : List Value}
    {body : Config → List Value → FrameId → Config} (hid : id < c.store.closures.size)
    (hargs : ∀ v ∈ args, v.Sound c.store.closures.size)
    (hbody : ∀ c : Config, c.Ready origin → ∀ forms env, forms ≠ [] →
      (∀ v ∈ forms, v.Sound c.store.closures.size) → env < c.store.frames.size →
      (body c forms env).Sound origin) :
    (c.callClosure id name args body).Sound origin := by
  unfold Config.callClosure
  rw [Array.getElem?_eq_getElem hid]
  generalize hclosure : c.store.closures[id] = closure
  have hsound : closure.Sound c.store :=
    h.store.closure id closure (by rw [Array.getElem?_eq_getElem hid, hclosure])
  obtain ⟨formals, hformals⟩ := hsound.formals
  simp only [Store.bindParameters_of_parse? hformals]
  by_cases hcount : formals.arity.accepts args.length = true
  · rw [if_pos hcount]
    simp only
    rw [if_neg (by simpa using hsound.body)]
    -- the new frame gets the next number
    have hgrows := Store.grows_bindArguments c.store closure.frame formals args
    have hready :
        (c.mapStore fun s =>
          (s.addCall closure.frame (formals.bindings c.store.clock args)).record
            (.call name args.length)).Ready origin :=
      h.mapStore (hgrows.trans (.of_eq rfl rfl))
        ((h.store.bindArguments hsound.frame hargs).of_eq rfl rfl)
    refine hbody _ hready _ _ hsound.body hsound.forms ?_
    show c.store.frames.size < (c.store.frames.push _).size
    rw [Array.size_push]
    exact Nat.lt_succ_self _
  · rw [if_neg hcount]
    refine h.fail ?_
    show ErrorKind.argumentCount ∈ ErrorKind.all
    decide

theorem Ready.call (h : c.Ready origin) {f : Value} {args : List Value}
    {body : Config → List Value → FrameId → Config} {otherwise : Config → Config}
    (hf : f.Sound c.store.closures.size) (hargs : ∀ v ∈ args, v.Sound c.store.closures.size)
    (hbody : ∀ c : Config, c.Ready origin → ∀ forms env, forms ≠ [] →
      (∀ v ∈ forms, v.Sound c.store.closures.size) → env < c.store.frames.size →
      (body c forms env).Sound origin)
    (hotherwise : f.isProcedure = false → (otherwise c).Sound origin) :
    (c.call f args body otherwise).Sound origin := by
  unfold Config.call
  split
  · exact h.callPrimitive hargs _
  · exact h.callClosure (Value.sound_object.1 hf) hargs hbody
  · rename_i hprimitive hclosure
    refine hotherwise ?_
    unfold Value.isProcedure
    split
    · exact absurd rfl (hclosure _ _)
    · exact absurd rfl (hprimitive _)
    · rfl

theorem Ready.evalOperands (h : c.Ready origin) {f : Value} {before after : List Value}
    {env : FrameId} (hproc : f.isProcedure = true) (hf : f.Sound c.store.closures.size)
    (hbefore : ∀ v ∈ before, v.Sound c.store.closures.size)
    (hafter : ∀ v ∈ after, v.Sound c.store.closures.size) (henv : env < c.store.frames.size) :
    (c.evalOperands f before after env).Sound origin := by
  cases after with
  | nil => exact h.goto ⟨hproc, hf, fun v hv => hbefore v (List.mem_reverse.1 hv)⟩
  | cons x rest =>
    rw [List.forall_mem_cons] at hafter
    exact h.await ⟨hproc, hf, hbefore, hafter.2, henv⟩ ⟨hafter.1, henv⟩

/-! ### Special forms -/

theorem isKnown_badForm (keyword text : String) : (EvalError.badForm keyword text).IsKnown := by
  show ErrorKind.badForm ∈ ErrorKind.all
  decide

theorem isKnown_unbound (name : String) : (EvalError.unbound name).IsKnown := by
  show ErrorKind.unboundVariable ∈ ErrorKind.all
  decide

theorem isKnown_notCallable (text : String) : (EvalError.notCallable text).IsKnown := by
  show ErrorKind.notCallable ∈ ErrorKind.all
  decide

theorem Ready.bind (h : c.Ready origin) {v : Value} (hv : v.Sound c.store.closures.size)
    (name : String) (env : FrameId) : (c.bind name env v).Sound origin := by
  have hrecord : (c.store.record (.define name)).Sound := h.store.of_eq rfl rfl
  have hgrows : c.store.Grows (c.store.record (.define name)) := .of_eq rfl rfl
  have hready : (c.mapStore fun s => (s.record (.define name)).define env name v).Ready origin :=
    h.mapStore (hgrows.trans (Store.grows_define _ env name v)) (hrecord.define hv)
  exact hready.ret Value.sound_void

/-- A closure is made only of accepted parameters and a body. -/
theorem Ready.makeClosure (h : c.Ready origin) {form : Value} {name : String} {params : Value}
    {body : List Value} {env : FrameId} {use : Config → Value → Config}
    (hbody : ∀ v ∈ body, v.Sound c.store.closures.size) (henv : env < c.store.frames.size)
    (huse : ∀ c : Config, c.Ready origin → ∀ v, v.Sound c.store.closures.size →
      (use c v).Sound origin) :
    (c.makeClosure form name params body env use).Sound origin := by
  unfold Config.makeClosure
  split
  · rename_i formals x rest hformals
    have hclosure : Closure.Sound c.store ⟨params, x :: rest, env⟩ :=
      ⟨List.cons_ne_nil _ _, hbody, ⟨formals, hformals⟩, henv⟩
    have hready := h.mapStore (f := fun s => s.addClosure ⟨params, x :: rest, env⟩)
      (Store.grows_addClosure _ _) (h.store.addClosure hclosure)
    refine huse _ hready _ (Value.sound_object.2 ?_)
    show c.store.closures.size < (c.store.closures.push _).size
    rw [Array.size_push]
    exact Nat.lt_succ_self _
  · exact h.fail (isKnown_badForm _ _)

theorem Ready.evalDefine (h : c.Ready origin) {form : Value} {operands : List Value} {env : FrameId}
    (hoperands : ∀ v ∈ operands, v.Sound c.store.closures.size) (henv : env < c.store.frames.size) :
    (c.evalDefine form operands env).Sound origin := by
  unfold Config.evalDefine
  split
  · exact h.bind Value.sound_void _ _
  · exact h.await henv ⟨hoperands _ (by simp), henv⟩
  · rw [List.forall_mem_cons] at hoperands
    exact h.makeClosure hoperands.2 henv fun c hc v hv => hc.bind hv _ _
  · exact h.fail (isKnown_badForm _ _)

theorem Ready.evalKeyword (h : c.Ready origin) {k : Keyword} {form : Value} {operands : List Value}
    {env : FrameId} (hoperands : ∀ v ∈ operands, v.Sound c.store.closures.size)
    (henv : env < c.store.frames.size) : (c.evalKeyword k form operands env).Sound origin := by
  unfold Config.evalKeyword
  split
  · exact h.ret (hoperands _ (by simp))
  · exact h.await ⟨hoperands _ (by simp), nofun, henv⟩ ⟨hoperands _ (by simp), henv⟩
  · rename_i test yes no
    refine h.await ⟨hoperands _ (by simp), ?_, henv⟩ ⟨hoperands _ (by simp), henv⟩
    rintro x ⟨⟩
    exact hoperands _ (by simp)
  · exact h.ret Value.sound_void
  · rename_i hne
    exact h.evalForms hne hoperands henv
  · rw [List.forall_mem_cons] at hoperands
    exact h.makeClosure hoperands.2 henv fun c hc v hv => hc.ret hv
  · exact h.evalDefine hoperands henv
  · split
    · exact h.fail (isKnown_unbound _)
    · rename_i hfound
      exact h.await ⟨henv, by rw [hfound]; rfl⟩ ⟨hoperands _ (by simp), henv⟩
  · exact h.goto ⟨hoperands _ (by simp), henv⟩
  · exact h.fail (isKnown_badForm _ _)

theorem Ready.evalForm (h : c.Ready origin) {form head tail : Value} {env : FrameId}
    (hform : form.Sound c.store.closures.size) (hhead : head.Sound c.store.closures.size)
    (htail : tail.Sound c.store.closures.size) (henv : env < c.store.frames.size) :
    (c.evalForm form head tail env).Sound origin := by
  unfold Config.evalForm
  cases c.headKeyword? head env with
  | none => exact h.await ⟨hform, htail, henv⟩ ⟨hhead, henv⟩
  | some k =>
    simp only
    cases hoperands : tail.elements? with
    | none => exact h.fail (isKnown_badForm _ _)
    | some operands => exact h.evalKeyword (Value.sound_elements htail hoperands) henv

theorem Ready.evalStep (h : c.Ready origin) {x : Value} {env : FrameId}
    (hx : x.Sound c.store.closures.size) (henv : env < c.store.frames.size) :
    (c.evalStep x env).Sound origin := by
  unfold Config.evalStep
  split
  · rename_i name
    unfold Store.lookup
    cases hfind : c.store.find env name with
    | none => exact h.fail (isKnown_unbound _)
    | some found =>
      obtain ⟨env', v⟩ := found
      simp only
      cases hkeyword : v.keyword? with
      | some k => exact h.fail (isKnown_badForm _ _)
      | none =>
        rcases h.store.binds_of_find hfind with hv | ⟨-, k, rfl, -⟩
        · exact h.ret hv
        · cases hkeyword
  · refine h.fail ?_
    show ErrorKind.emptyCombination ∈ ErrorKind.all
    decide
  · have hparts := Value.sound_pair.1 hx
    exact h.evalForm hx hparts.1 hparts.2 henv
  · exact h.ret hx

/-! ### Quasiquotation -/

theorem sound_quasiForm {n : Nat} {x y : Value} {k : Keyword} (h : x.Sound n)
    (hform : quasiForm? x = some (k, y)) : y.Sound n := by
  unfold quasiForm? at hform
  split at hform
  · simp only [Value.sound_pair] at h
    split_ifs at hform
    all_goals
      cases hform
      exact h.2.1
  · cases hform

theorem Ready.expandPair (h : c.Ready origin) {car cdr : Value} {level : Nat} {env : FrameId}
    (hcar : car.Sound c.store.closures.size) (hcdr : cdr.Sound c.store.closures.size)
    (henv : env < c.store.frames.size) : (c.expandPair car cdr level env).Sound origin := by
  unfold Config.expandPair
  split
  · rename_i x hform
    have hx := sound_quasiForm hcar hform
    split_ifs
    · exact h.await ⟨hcdr, henv⟩ ⟨hx, henv⟩
    · have hready : (c.push (.expandCdr cdr level env)).Ready origin := h.push ⟨hcdr, henv⟩
      exact hready.await trivial ⟨hx, henv⟩
  · exact h.await ⟨hcdr, henv⟩ ⟨hcar, henv⟩

theorem Ready.expandStep (h : c.Ready origin) {x : Value} {level : Nat} {env : FrameId}
    (hx : x.Sound c.store.closures.size) (henv : env < c.store.frames.size) :
    (c.expandStep x level env).Sound origin := by
  unfold Config.expandStep
  split
  · rename_i l car cdr
    split
    · rename_i y hform
      have hy := sound_quasiForm hx hform
      split_ifs
      · exact h.goto ⟨hy, henv⟩
      · exact h.await trivial ⟨hy, henv⟩
    · rename_i y hform
      exact h.await trivial ⟨sound_quasiForm hx hform, henv⟩
    · rw [Value.sound_pair] at hx
      exact h.expandPair hx.1 hx.2 henv
  · rw [Value.sound_vector] at hx
    exact h.tick.await trivial ⟨Value.sound_list hx Value.sound_nil, henv⟩
  · exact h.ret hx

/-! ### Tasks -/

theorem Ready.resume (h : c.Ready origin) {task : Task} (htask : task.Sound c.store) {v : Value}
    (hv : v.Sound c.store.closures.size) : (c.resume task v).Sound origin := by
  cases task with
  | leave => exact ⟨⟨h.grows, h.store, h.tasks⟩, hv⟩
  | operator form operands env =>
    rw [Config.resume]
    split_ifs with hproc
    · cases hitems : operands.elements? with
      | some items =>
        exact h.evalOperands hproc hv (List.forall_mem_nil _)
          (Value.sound_elements htask.2.1 hitems)
          htask.2.2
      | none => exact h.fail (isKnown_notList _)
    · exact h.fail (isKnown_notCallable _)
  | operand f before after env =>
    obtain ⟨hproc, hf, hbefore, hafter, henv⟩ := htask
    exact h.evalOperands hproc hf (List.forall_mem_cons.2 ⟨hv, hbefore⟩) hafter henv
  | branch yes no env =>
    obtain ⟨hyes, hno, henv⟩ := htask
    simp only [Config.resume]
    split_ifs
    · exact h.goto ⟨hyes, henv⟩
    · cases no with
      | some x => exact h.goto ⟨hno x rfl, henv⟩
      | none => exact h.ret Value.sound_void
  | forms rest env => exact h.evalForms htask.1 htask.2.1 htask.2.2
  | body rest env =>
    rw [Config.resume]
    split_ifs
    · exact h.ret hv
    · exact h.evalBody htask.1 htask.2
  | define name env => exact h.bind hv name env
  | assign name env =>
    rw [Config.resume]
    cases c.store.lookFor env name with
    | some frame =>
      have hready : (c.mapStore fun s => s.define frame name v).Ready origin :=
        h.mapStore (Store.grows_define _ _ _ _) (h.store.define hv)
      exact hready.ret Value.sound_void
    | none => exact h.fail (isKnown_unbound _)
  | named name => exact h.ret hv
  | report x => exact h.ret hv
  | expandCdr cdr level env => exact h.tick.await hv htask
  | joinCar label car => exact h.ret (Value.sound_pair.2 ⟨htask, hv⟩)
  | requote keyword =>
    refine h.make fun stamp => Value.sound_list ?_ Value.sound_nil
    simp [hv]
  | gather =>
    rw [Config.resume]
    cases hitems : v.elements? with
    | some items => exact h.make fun stamp => Value.sound_vector.2 (Value.sound_elements hv hitems)
    | none => exact h.fail (isKnown_notList _)
  | spliceRest rest env => exact h.await hv htask
  | spliceInto items =>
    rw [Config.resume]
    cases hxs : items.elements? with
    | some xs => exact h.make fun stamp => Value.sound_list (Value.sound_elements htask hxs) hv
    | none => exact h.fail (isKnown_notList items.write)

theorem Ready.unwind (h : c.Ready origin) (task : Task) {e : EvalError} (he : e.IsKnown) :
    (c.unwind task e).Sound origin := by
  cases task with
  | leave => exact ⟨⟨h.grows, h.store, h.tasks⟩, he⟩
  | named name => exact h.fail (he.named name)
  | report x =>
    have hready : (c.mapStore fun s => s.record (.failure x.write e.message)).Ready origin :=
      h.mapStore (.of_eq rfl rfl) (h.store.of_eq rfl rfl)
    exact hready.fail he
  | _ => exact h.fail he

/-! ### The machine -/

theorem Ready.enterStep (h : c.Ready origin) {x : Value} {env : FrameId} (settings : Settings)
    (hx : x.Sound c.store.closures.size) (henv : env < c.store.frames.size) :
    (c.enterStep settings x env).Sound origin := by
  have hleave : Ready origin { c.push .leave with depth := c.depth + 1 } :=
    ⟨h.grows, h.store, List.forall_mem_cons.2 ⟨trivial, h.tasks⟩⟩
  unfold Config.enterStep
  dsimp only
  split_ifs
  · refine hleave.fail ?_
    show ErrorKind.depthExceeded ∈ ErrorKind.all
    decide
  · exact hleave.goto ⟨hx, henv⟩

/-- **A step keeps a configuration sound.** -/
theorem Sound.step (h : c.Sound origin) (settings : Settings) : (c.step settings).Sound origin := by
  have hcontrol := h.control
  have hready := h.toReady
  unfold Config.step
  cases hc : c.control with
  | enter x env =>
    rw [hc] at hcontrol
    exact hready.enterStep settings hcontrol.1 hcontrol.2
  | eval x env =>
    rw [hc] at hcontrol
    exact hready.evalStep hcontrol.1 hcontrol.2
  | expand x level env =>
    rw [hc] at hcontrol
    exact hready.expandStep hcontrol.1 hcontrol.2
  | invoke f args =>
    rw [hc] at hcontrol
    refine hready.call hcontrol.2.1 hcontrol.2.2 (fun c hc forms env => hc.evalForms) fun hf => ?_
    exact absurd (hcontrol.1.symm.trans hf) nofun
  | apply f args =>
    rw [hc] at hcontrol
    exact hready.call hcontrol.1 hcontrol.2 (fun c hc forms env _ => hc.evalBody) fun _ =>
      hready.fail (isKnown_notCallable _)
  | ret v =>
    rw [hc] at hcontrol
    simp only
    cases htasks : c.tasks with
    | nil => exact h
    | cons task rest =>
      have htask := hready.tasks
      rw [htasks, List.forall_mem_cons] at htask
      have hpop : (c.popTask rest).Ready origin := ⟨h.grows, h.store, htask.2⟩
      exact hpop.resume htask.1 hcontrol
  | fail e =>
    rw [hc] at hcontrol
    simp only
    cases htasks : c.tasks with
    | nil => exact h
    | cons task rest =>
      have htask := hready.tasks
      rw [htasks, List.forall_mem_cons] at htask
      have hpop : (c.popTask rest).Ready origin := ⟨h.grows, h.store, htask.2⟩
      exact hpop.unwind task hcontrol
  | stuck b => exact h

/-- The invariant along any number of steps. -/
theorem Sound.iterate (h : c.Sound origin) (settings : Settings) (n : Nat) :
    ((Config.step settings)^[n] c).Sound origin := by
  induction n generalizing c with
  | zero => exact h
  | succ n ih => exact ih (h.step settings)

end Steps

end Config

/-- The result is a sound value or an error of a known kind, if there is one. -/
def Outcome.Sound (s : Store) : Outcome → Prop
  | .value v => v.Sound s.closures.size
  | .error e => e.IsKnown
  | .stuck _ => False
  | .unfinished => True

/-- **A run keeps a configuration sound**, and its result is sound. -/
theorem Config.Sound.run {origin : Store} {c : Config} (h : c.Sound origin) (settings : Settings)
    (fuel : Nat) :
    (c.run settings fuel).2.Sound origin ∧
      (c.run settings fuel).1.Sound (c.run settings fuel).2.store := by
  have houtcome {c : Config} (h : c.Sound origin) {o : Outcome} (ho : c.outcome? = some o) :
      o.Sound c.store := by
    have hcontrol := h.control
    unfold Config.outcome? at ho
    split at ho
    · rename_i v hc _
      cases ho
      rw [hc] at hcontrol
      exact hcontrol
    · rename_i e hc _
      cases ho
      rw [hc] at hcontrol
      exact hcontrol
    · rename_i hc
      rw [hc] at hcontrol
      exact hcontrol.elim
    · cases ho
  induction fuel generalizing c with
  | zero =>
    rw [Config.run]
    refine ⟨h, ?_⟩
    cases ho : c.outcome? with
    | some o => exact houtcome h ho
    | none => trivial
  | succ fuel ih =>
    cases ho : c.outcome? with
    | some o =>
      rw [Config.run_of_outcome ho]
      exact ⟨h, houtcome h ho⟩
    | none =>
      rw [Config.run_succ ho]
      exact ih (h.step settings)

/-! ### What must not happen -/

/-- The configuration does what must not happen. -/
inductive Config.Faulty (c : Config) : Prop where
  /-- The machine is stuck, whatever the cause: an index or a slice out of range, a parameter that
  is no symbol, a combination of what is no procedure, a closure that does not exist, or an error of
  the layers below that no primitive has turned into an error of evaluation. -/
  | stuck (b : Breach) (h : c.control = .stuck b)
  /-- An expression is evaluated in a frame that does not exist. -/
  | frame (x env) (h : c.control = .enter x env ∨ c.control = .eval x env ∨
        ∃ level, c.control = .expand x level env) (henv : c.store.frames.size ≤ env)

/-- **Sound configurations do nothing that must not happen.** -/
theorem Config.Sound.not_faulty {origin : Store} {c : Config} (h : c.Sound origin) :
    ¬ c.Faulty := by
  have hcontrol := h.control
  intro hfaulty
  cases hfaulty with
  | stuck b hc =>
    rw [hc] at hcontrol
    exact hcontrol
  | frame x env hc henv =>
    rcases hc with hc | hc | ⟨level, hc⟩
    all_goals
      rw [hc] at hcontrol
      exact absurd hcontrol.2 (Nat.not_lt.2 henv)

/-- Each part of the invariant is needed: the machine is stuck at a closure with a parameter that is
no symbol, at a closure without a body, and at a combination of what is no procedure. -/
example :
    let s := Store.initial false
    let call (closure : Closure) (args : List Value) : Config :=
      ⟨.invoke (.object (.closure 0 "")) args, [], 0, s.addClosure closure⟩
    let params : Value := .pair ⟨0, 0⟩ .nil .nil
    ((call ⟨params, [.nil], Store.global⟩ [.nil]).step ⟨none⟩).control =
        .stuck (.panic (.assertion "symbol")) ∧
      ((call ⟨.nil, [], Store.global⟩ []).step ⟨none⟩).control = .stuck (.panic (.slice 0 (-1) 0)) ∧
      (Config.step ⟨none⟩ ⟨.invoke .nil [], [], 0, s⟩).control =
        .stuck (.panic (.assertion "procedure")) :=
  ⟨rfl, rfl, rfl⟩

/-! ### States of an interpreter -/

/-- The value is made of written data and of objects inside the values `vs`. -/
def MadeOf (vs : List Value) (x : Value) : Prop :=
  ∀ o, Datum.Holds o x → ∃ v ∈ vs, Datum.Holds o v

/-- The value of an outcome, if it has one. -/
def Outcome.values : Outcome → List Value
  | .value v => [v]
  | _ => []

/-- The states of an interpreter that calls on written data and earlier results lead to, with the
values that the calls have given so far. -/
inductive Reachable : Interpreter → List Value → Prop where
  | start (maxDepth : Int) (recording : Bool) : Reachable (.start maxDepth recording) []
  | read {i vs} (h : Reachable i vs) (d : Sexp) : Reachable (i.intern d).2 ((i.intern d).1 :: vs)
  | evalIn {i vs} (h : Reachable i vs) {x env} (hx : MadeOf vs x) (henv : env < i.store.frames.size)
      (fuel : Nat) : Reachable (i.evalIn fuel x env).2 ((i.evalIn fuel x env).1.values ++ vs)
  | apply {i vs} (h : Reachable i vs) {f args} (hf : MadeOf vs f) (hargs : ∀ v ∈ args, MadeOf vs v)
      (fuel : Nat) : Reachable (i.apply fuel f args).2 ((i.apply fuel f args).1.values ++ vs)
  | newFrame {i vs} (h : Reachable i vs) {parent : Option FrameId}
      (hparent : ∀ p, parent = some p → p < i.store.frames.size) :
      Reachable (i.mapStore fun s => s.addFrame ⟨parent, []⟩) vs
  | define {i vs} (h : Reachable i vs) {v} (hv : MadeOf vs v) (env : FrameId) (name : String) :
      Reachable (i.mapStore fun s => s.define env name v) vs
  | assign {i vs} (h : Reachable i vs) {v} (hv : MadeOf vs v) {env : FrameId} {name : String}
      {s : Store}
      (hs : i.store.assign env name v = .ok s) : Reachable { i with store := s } vs

theorem MadeOf.sound {n : Nat} {vs : List Value} (hvs : ∀ v ∈ vs, Value.Sound n v) {x : Value}
    (h : MadeOf vs x) : x.Sound n := by
  intro o ho
  obtain ⟨v, hv, hov⟩ := h o ho
  exact hvs v hv o hov

namespace Interpreter

variable {i : Interpreter}

/-- The configuration that the evaluation of an expression starts from is sound. -/
theorem sound_enter (hstore : i.store.Sound) {x : Value} {env : FrameId}
    (hx : x.Sound i.store.closures.size) (henv : env < i.store.frames.size) :
    Config.Sound i.store ⟨.enter x env, [.report x], 0, i.store⟩ :=
  ⟨⟨.refl _, hstore, List.forall_mem_singleton.2 hx⟩, hx, henv⟩

/-- The configuration that a call starts from is sound. -/
theorem sound_apply (hstore : i.store.Sound) {f : Value} {args : List Value}
    (hf : f.Sound i.store.closures.size) (hargs : ∀ v ∈ args, v.Sound i.store.closures.size) :
    Config.Sound i.store ⟨.apply f args, [], 0, i.store⟩ :=
  ⟨⟨.refl _, hstore, List.forall_mem_nil _⟩, hf, hargs⟩

/-- A run from a sound configuration lets the store grow and gives a sound outcome. -/
theorem sound_runFrom {control : Control} {tasks : List Task}
    (h : Config.Sound i.store ⟨control, tasks, 0, i.store⟩) (fuel : Nat) :
    i.store.Grows (i.runFrom fuel control tasks).2.store ∧
      (i.runFrom fuel control tasks).2.store.Sound ∧
      (i.runFrom fuel control tasks).1.Sound (i.runFrom fuel control tasks).2.store := by
  obtain ⟨hconfig, houtcome⟩ := h.run i.settings fuel
  exact ⟨hconfig.grows, hconfig.store, houtcome⟩

end Interpreter

/-- The store of a reachable state is sound, and so are the values so far. -/
theorem Reachable.sound {i : Interpreter} {vs : List Value} (h : Reachable i vs) :
    i.store.Sound ∧ ∀ v ∈ vs, v.Sound i.store.closures.size := by
  -- the values so far stay sound in a store that has grown, and the new one is sound there
  have hmore {s s' : Store} {vs : List Value} (hvs : ∀ v ∈ vs, v.Sound s.closures.size)
      (hgrows : s.Grows s') {o : Outcome} (ho : o.Sound s') :
      ∀ v ∈ o.values ++ vs, v.Sound s'.closures.size := by
    refine List.forall_mem_append.2 ⟨?_, fun v hv => (hvs v hv).mono hgrows.closures_le⟩
    cases o with
    | value v => exact List.forall_mem_singleton.2 ho
    | _ => exact List.forall_mem_nil _
  induction h with
  | start maxDepth recording => exact ⟨Store.sound_initial recording, List.forall_mem_nil _⟩
  | read h d ih =>
    exact ⟨ih.1.of_eq rfl rfl, List.forall_mem_cons.2 ⟨Value.sound_ofSexp _ d, ih.2⟩⟩
  | evalIn h hx henv fuel ih =>
    obtain ⟨hgrows, hstore, houtcome⟩ :=
      Interpreter.sound_runFrom (Interpreter.sound_enter ih.1 (hx.sound ih.2) henv) fuel
    exact ⟨hstore, hmore ih.2 hgrows houtcome⟩
  | apply h hf hargs fuel ih =>
    obtain ⟨hgrows, hstore, houtcome⟩ := Interpreter.sound_runFrom
      (Interpreter.sound_apply ih.1 (hf.sound ih.2) fun v hv => (hargs v hv).sound ih.2) fuel
    exact ⟨hstore, hmore ih.2 hgrows houtcome⟩
  | newFrame h hparent ih =>
    exact ⟨ih.1.addFrame hparent nofun, ih.2⟩
  | define h hv env name ih => exact ⟨ih.1.define (hv.sound ih.2), ih.2⟩
  | assign h hv hs ih =>
    unfold Store.assign at hs
    split at hs
    · cases hs
      exact ⟨ih.1.define (hv.sound ih.2), ih.2⟩
    · cases hs

/-- The configurations that evaluations and calls in a state of an interpreter pass through. -/
inductive Visited (i : Interpreter) (vs : List Value) : Config → Prop where
  | enter {x env} (hx : MadeOf vs x) (henv : env < i.store.frames.size) :
      Visited i vs ⟨.enter x env, [.report x], 0, i.store⟩
  | apply {f args} (hf : MadeOf vs f) (hargs : ∀ v ∈ args, MadeOf vs v) :
      Visited i vs ⟨.apply f args, [], 0, i.store⟩
  | step {c} (h : Visited i vs c) : Visited i vs (c.step i.settings)

theorem Visited.iterate {i : Interpreter} {vs : List Value} {c : Config} (h : Visited i vs c)
    (n : Nat) :
    Visited i vs ((Config.step i.settings)^[n] c) := by
  induction n generalizing c with
  | zero => exact h
  | succ n ih => exact ih h.step

/-- Evaluations in a reachable state pass through sound configurations only. -/
theorem Visited.sound {i : Interpreter} {vs : List Value} {c : Config} (hi : Reachable i vs)
    (h : Visited i vs c) : c.Sound i.store := by
  obtain ⟨hstore, hvs⟩ := hi.sound
  induction h with
  | enter hx henv => exact Interpreter.sound_enter hstore (hx.sound hvs) henv
  | apply hf hargs =>
    exact Interpreter.sound_apply hstore (hf.sound hvs) fun v hv => (hargs v hv).sound hvs
  | step _ ih => exact ih.step i.settings

/-- The outcome is a value, an error of one of the nine kinds, or none yet. -/
def Outcome.IsProper : Outcome → Prop
  | .value _ => True
  | .error e => e.kind ∈ ErrorKind.all
  | .stuck _ => False
  | .unfinished => True

theorem Outcome.Sound.isProper {s : Store} {o : Outcome} (h : o.Sound s) : o.IsProper := by
  cases o with
  | value v => trivial
  | error e => exact h
  | stuck b => exact h
  | unfinished => trivial

/-- **Evaluation is safe.**  In every reachable state, evaluating an expression in a frame and
calling a procedure end with a value or an error of a known kind, if they end.  On the way no
configuration is stuck: no index and no slice is out of range, every parameter is a symbol, every
combination calls a procedure, and no error of the layers below gets past the primitives.  Every
expression is evaluated in a frame that exists. -/
theorem evaluation_safe {i : Interpreter} {vs : List Value} (h : Reachable i vs) (fuel : Nat) :
    (∀ x env, MadeOf vs x → env < i.store.frames.size →
      (i.evalIn fuel x env).1.IsProper ∧
      ∀ n, ¬ ((Config.step i.settings)^[n] ⟨.enter x env, [.report x], 0, i.store⟩).Faulty) ∧
    (∀ f args, MadeOf vs f → (∀ v ∈ args, MadeOf vs v) →
      (i.apply fuel f args).1.IsProper ∧
      ∀ n, ¬ ((Config.step i.settings)^[n] ⟨.apply f args, [], 0, i.store⟩).Faulty) := by
  obtain ⟨hstore, hvs⟩ := h.sound
  constructor
  · intro x env hx henv
    have hsound := Interpreter.sound_enter hstore (hx.sound hvs) henv
    exact ⟨(Interpreter.sound_runFrom hsound fuel).2.2.isProper,
      fun n => (hsound.iterate i.settings n).not_faulty⟩
  · intro f args hf hargs
    have hsound := Interpreter.sound_apply hstore (hf.sound hvs) fun v hv => (hargs v hv).sound hvs
    exact ⟨(Interpreter.sound_runFrom hsound fuel).2.2.isProper,
      fun n => (hsound.iterate i.settings n).not_faulty⟩

/-- A written expression in a new interpreter: `((lambda (x . rest) (car rest)) 1)` fails, since
`rest` is the empty list. -/
theorem evaluation_safe_rest :
    let body : Sexp := .ofList [.symbol "car", .symbol "rest"] .nil
    let lambda : Sexp :=
      .ofList [.symbol "lambda", .pair () (.symbol "x") (.symbol "rest"), body] .nil
    let d : Sexp := .ofList [lambda, .number (.ofInt 1)] .nil
    let x := ((Interpreter.start 0 false).intern d).1
    let i := ((Interpreter.start 0 false).intern d).2
    (i.evalIn 50 x Store.global).1.IsProper ∧
      (match (i.evalIn 50 x Store.global).1 with
        | .error e => some e.kind
        | _ => none) = some .typeMismatch := by
  intro body lambda d x i
  have hreachable : Reachable i [x] := .read (.start 0 false) d
  have hx : MadeOf [x] x := fun o ho => ⟨x, List.mem_cons_self, ho⟩
  refine ⟨((evaluation_safe hreachable 50).1 x Store.global hx Nat.zero_lt_one).1, ?_⟩
  decide +kernel

end Scheme
