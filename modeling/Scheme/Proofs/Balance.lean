import Mathlib
import Scheme.Proofs.Ending
import Scheme.Proofs.Safety

/-!
# The depth at the end of a call

A nested evaluation counts the depth up and leaves a task behind that counts it down again, and a
value and an error both pass through that task, the error that the depth is too large among them.
So whatever is called, and however it ends, it ends at the depth at which it started.  In particular
an interpreter that counts the depth from one call to the next finds it at zero before each of them.

* `Task.depthAfter`, `restored`: the depth after a task, and after all of them;
* `Config.Balanced`: the tasks of a call restore a depth, with one lemma for each function of the
  machine;
* `Config.Returns`: a call comes back to the tasks that waited for it;
* `Counted`: the states of an interpreter that hands its depth on from call to call;
* `depth_restored`: the main result.
-/

namespace Scheme

/-- The depth after a task has got its result. -/
def Task.depthAfter : Task → Nat → Nat
  | .leave, depth => depth - 1
  | _, depth => depth

/-- The depth after all the tasks, starting from a depth. -/
def restored (tasks : List Task) (depth : Nat) : Nat :=
  tasks.foldl (fun depth task => task.depthAfter depth) depth

namespace Config

/-- The configuration works above `tasks`, and comes back to them at the given depth. -/
def Balanced (tasks : List Task) (depth : Nat) (c : Config) : Prop :=
  ∃ above, c.tasks = above ++ tasks ∧ restored above c.depth = depth

section Steps

variable {tasks : List Task} {depth : Nat} {c : Config}

theorem balanced_self (c : Config) : c.Balanced c.tasks c.depth := ⟨[], rfl, rfl⟩

/-! ### Small steps of control -/

theorem Balanced.mapStore (h : c.Balanced tasks depth) (f : Store → Store) :
    (c.mapStore f).Balanced tasks depth := h

theorem Balanced.push (h : c.Balanced tasks depth) {task : Task}
    (htask : task.depthAfter c.depth = c.depth) : (c.push task).Balanced tasks depth := by
  obtain ⟨above, htasks, hdepth⟩ := h
  refine ⟨task :: above, congrArg (task :: ·) htasks, ?_⟩
  show restored above (task.depthAfter c.depth) = depth
  rw [htask, hdepth]

theorem Balanced.await (h : c.Balanced tasks depth) {task : Task}
    (htask : task.depthAfter c.depth = c.depth) (control : Control) :
    (c.await task control).Balanced tasks depth :=
  h.push htask

theorem Balanced.throw (h : c.Balanced tasks depth) (failure : Failure) :
    (c.throw failure).Balanced tasks depth := by
  cases failure <;> exact h

/-! ### Procedures -/

theorem Balanced.evalForms (h : c.Balanced tasks depth) (forms : List Value) (env : FrameId) :
    (c.evalForms forms env).Balanced tasks depth := by
  unfold Config.evalForms
  split
  · exact h
  · exact h
  · exact h.await rfl _

theorem Balanced.evalBody (h : c.Balanced tasks depth) (forms : List Value) (env : FrameId) :
    (c.evalBody forms env).Balanced tasks depth := by
  unfold Config.evalBody
  split
  · exact h
  · exact h.await rfl _

theorem Balanced.callPrimitive (h : c.Balanced tasks depth) (p : Primitive) (args : List Value) :
    (c.callPrimitive p args).Balanced tasks depth := by
  unfold Config.callPrimitive
  split
  · exact h.throw _
  · exact h
  · exact h
  · have hnamed : (c.push (.named p.name)).Balanced tasks depth := h.push rfl
    exact hnamed.await rfl _
  · exact h.await rfl _

theorem Balanced.callClosure (h : c.Balanced tasks depth) (id : Nat) (name : String)
    (args : List Value) {body : Config → List Value → FrameId → Config}
    (hbody : ∀ c : Config, c.Balanced tasks depth → ∀ forms env,
      (body c forms env).Balanced tasks depth) :
    (c.callClosure id name args body).Balanced tasks depth := by
  unfold Config.callClosure
  split
  · exact h
  · split
    · exact h.throw _
    · split
      · exact h
      · exact hbody _ (h.mapStore _) _ _

theorem Balanced.call (h : c.Balanced tasks depth) (f : Value) (args : List Value)
    {body : Config → List Value → FrameId → Config}
    (hbody : ∀ c : Config, c.Balanced tasks depth → ∀ forms env,
      (body c forms env).Balanced tasks depth)
    {otherwise : Config → Config} (hotherwise : (otherwise c).Balanced tasks depth) :
    (c.call f args body otherwise).Balanced tasks depth := by
  unfold Config.call
  split
  · exact h.callPrimitive _ args
  · exact h.callClosure _ _ args hbody
  · exact hotherwise

theorem Balanced.evalOperands (h : c.Balanced tasks depth) (f : Value) (before after : List Value)
    (env : FrameId) : (c.evalOperands f before after env).Balanced tasks depth := by
  unfold Config.evalOperands
  split
  · exact h
  · exact h.await rfl _

/-! ### Special forms -/

theorem Balanced.makeClosure (h : c.Balanced tasks depth) (form : Value) (name : String)
    (params : Value) (body : List Value) (env : FrameId) {use : Config → Value → Config}
    (huse : ∀ c : Config, c.Balanced tasks depth → ∀ v, (use c v).Balanced tasks depth) :
    (c.makeClosure form name params body env use).Balanced tasks depth := by
  unfold Config.makeClosure
  split
  · exact huse _ (h.mapStore _) _
  · exact h

theorem Balanced.evalDefine (h : c.Balanced tasks depth) (form : Value) (operands : List Value)
    (env : FrameId) : (c.evalDefine form operands env).Balanced tasks depth := by
  unfold Config.evalDefine
  split
  · exact h
  · exact h.await rfl _
  · exact h.makeClosure _ _ _ _ _ fun c hc v => hc
  · exact h

theorem Balanced.evalKeyword (h : c.Balanced tasks depth) (k : Keyword) (form : Value)
    (operands : List Value) (env : FrameId) :
    (c.evalKeyword k form operands env).Balanced tasks depth := by
  unfold Config.evalKeyword
  split
  · exact h
  · exact h.await rfl _
  · exact h.await rfl _
  · exact h
  · exact h.evalForms _ env
  · exact h.makeClosure _ _ _ _ _ fun c hc v => hc
  · exact h.evalDefine form _ env
  · split
    · exact h
    · exact h.await rfl _
  · exact h
  · exact h

theorem Balanced.evalStep (h : c.Balanced tasks depth) (x : Value) (env : FrameId) :
    (c.evalStep x env).Balanced tasks depth := by
  unfold Config.evalStep
  split
  · split
    · exact h
    · split <;> exact h
  · exact h
  · unfold Config.evalForm
    split
    · exact h.await rfl _
    · split
      · exact h
      · exact h.evalKeyword _ _ _ env
  · exact h

/-! ### Quasiquotation -/

theorem Balanced.expandPair (h : c.Balanced tasks depth) (car cdr : Value) (level : Nat)
    (env : FrameId) :
    (c.expandPair car cdr level env).Balanced tasks depth := by
  unfold Config.expandPair
  split
  · split_ifs
    · exact h.await rfl _
    · have hcdr : (c.push (.expandCdr cdr level env)).Balanced tasks depth := h.push rfl
      exact hcdr.await rfl _
  · exact h.await rfl _

theorem Balanced.expandStep (h : c.Balanced tasks depth) (x : Value) (level : Nat) (env : FrameId) :
    (c.expandStep x level env).Balanced tasks depth := by
  unfold Config.expandStep
  split
  · split
    · split_ifs
      · exact h
      · exact h.await rfl _
    · exact h.await rfl _
    · exact h.expandPair _ _ level env
  · exact (h.mapStore Store.tick).await rfl _
  · exact h

/-! ### Tasks -/

theorem Balanced.resume {task : Task}
    (h : Balanced tasks depth { c with depth := task.depthAfter c.depth }) (v : Value) :
    (c.resume task v).Balanced tasks depth := by
  cases task with
  | leave => exact h
  | operator form operands env =>
    have h : c.Balanced tasks depth := h
    rw [Config.resume]
    split_ifs
    · split
      · exact h.evalOperands v [] _ env
      · exact h
    · exact h
  | operand f before after env =>
    have h : c.Balanced tasks depth := h
    exact h.evalOperands f (v :: before) after env
  | branch yes no env =>
    simp only [Config.resume]
    split_ifs
    · exact h
    · split <;> exact h
  | forms rest env =>
    have h : c.Balanced tasks depth := h
    exact h.evalForms rest env
  | body rest env =>
    have h : c.Balanced tasks depth := h
    rw [Config.resume]
    split_ifs
    · exact h
    · exact h.evalBody rest env
  | expandCdr cdr level env =>
    have h : c.Balanced tasks depth := h
    exact (h.mapStore Store.tick).await rfl (.expand cdr level env)
  | spliceRest =>
    have h : c.Balanced tasks depth := h
    exact h.await rfl _
  | assign | gather | spliceInto =>
    rw [Config.resume]
    split <;> exact h
  | _ => exact h

theorem Balanced.unwind {task : Task}
    (h : Balanced tasks depth { c with depth := task.depthAfter c.depth }) (e : EvalError) :
    (c.unwind task e).Balanced tasks depth := by
  cases task <;> exact h

/-! ### The machine -/

theorem Balanced.enterStep (h : c.Balanced tasks depth) (settings : Settings) (x : Value)
    (env : FrameId) :
    (c.enterStep settings x env).Balanced tasks depth := by
  -- the depth goes up by one, and comes down again with the task on top, whether or not it is too
  -- deep
  have hleave : Balanced tasks depth { c.push .leave with depth := c.depth + 1 } := by
    obtain ⟨above, htasks, hdepth⟩ := h
    exact ⟨.leave :: above, congrArg (Task.leave :: ·) htasks, hdepth⟩
  unfold Config.enterStep
  dsimp only
  split_ifs <;> exact hleave

end Steps

/-! ### Calls -/

/-- The configuration hands a value or an error to the tasks. -/
def HandsOver (tasks : List Task) (c : Config) : Prop :=
  c.tasks = tasks ∧ ((∃ v, c.control = .ret v) ∨ ∃ e, c.control = .fail e)

/-- What the first configuration does above the tasks is done when the second hands its result to
them. -/
inductive Returns (settings : Settings) (tasks : List Task) : Config → Config → Prop where
  | here {c : Config} (h : c.HandsOver tasks) : Returns settings tasks c c
  | step {c c' : Config} (h : ¬ c.HandsOver tasks)
      (hrest : Returns settings tasks (c.step settings) c') :
      Returns settings tasks c c'

variable {settings : Settings} {tasks : List Task} {depth : Nat} {c c' : Config}

/-- The task on top belongs to the call as long as the call has not come back. -/
theorem Balanced.pop (h : c.Balanced tasks depth) (hc : c.tasks ≠ tasks) {task : Task}
    {rest : List Task} (htasks : c.tasks = task :: rest) :
    Balanced tasks depth { c.popTask rest with depth := task.depthAfter c.depth } := by
  obtain ⟨above, habove, hdepth⟩ := h
  cases above with
  | nil => exact absurd habove hc
  | cons first above =>
    rw [htasks] at habove
    obtain ⟨rfl, rfl⟩ := List.cons.inj habove
    exact ⟨above, rfl, hdepth⟩

/-- **A step of a call** that has not come back yet. -/
theorem Balanced.step (h : c.Balanced tasks depth) (hc : ¬ c.HandsOver tasks)
    (settings : Settings) :
    (c.step settings).Balanced tasks depth := by
  unfold Config.step
  split
  · exact h.enterStep settings _ _
  · exact h.evalStep _ _
  · exact h.expandStep _ _ _
  · exact h.call _ _ (fun c hc forms env => hc.evalForms forms env) (h.throw _)
  · exact h.call _ _ (fun c hc forms env => hc.evalBody forms env) h
  · rename_i v hcontrol
    have hne : c.tasks ≠ tasks := fun htasks => hc ⟨htasks, Or.inl ⟨v, hcontrol⟩⟩
    split
    · exact h
    · rename_i task rest htasks
      exact Balanced.resume (c := c.popTask rest) (h.pop hne htasks) v
  · rename_i e hcontrol
    have hne : c.tasks ≠ tasks := fun htasks => hc ⟨htasks, Or.inr ⟨e, hcontrol⟩⟩
    split
    · exact h
    · rename_i task rest htasks
      exact Balanced.unwind (c := c.popTask rest) (h.pop hne htasks) e
  · exact h

theorem Balanced.depth_eq (h : c.Balanced tasks depth) (hc : c.tasks = tasks) :
    c.depth = depth := by
  obtain ⟨above, habove, hdepth⟩ := h
  obtain rfl : above = [] := List.append_left_eq_self.1 (habove.symm.trans hc)
  exact hdepth

/-- **A whole call** comes back at the depth that its tasks restore. -/
theorem Returns.depth_eq (h : Returns settings tasks c c') (hc : c.Balanced tasks depth) :
    c'.depth = depth := by
  induction h with
  | here hover => exact hc.depth_eq hover.1
  | step hover _ ih => exact ih (hc.step hover settings)

/-- A run that ends with a value or an error comes back to the start of its tasks. -/
theorem Ends.returns {o : Outcome} (h : Ends settings c o c') (ho : ∀ b, o ≠ .stuck b) :
    Returns settings [] c c' := by
  induction h with
  | @stopped c o hstop =>
    unfold outcome? at hstop
    split at hstop
    · next hcontrol htasks => exact .here ⟨htasks, Or.inl ⟨_, hcontrol⟩⟩
    · next hcontrol htasks => exact .here ⟨htasks, Or.inr ⟨_, hcontrol⟩⟩
    · cases hstop
      exact absurd rfl (ho _)
    · cases hstop
  | @step c c' o hnone _ ih =>
    refine .step ?_ (ih ho)
    rintro ⟨htasks, ⟨v, hcontrol⟩ | ⟨e, hcontrol⟩⟩
    · rw [outcome?, hcontrol, htasks] at hnone
      cases hnone
    · rw [outcome?, hcontrol, htasks] at hnone
      cases hnone

end Config

/-! ### Interpreters that count -/

/-- The states of an interpreter that starts each call at the depth at which the one before has
ended, with that depth and with the values that the calls have given so far. -/
inductive Counted : Interpreter → Nat → List Value → Prop where
  | start (maxDepth : Int) (recording : Bool) : Counted (.start maxDepth recording) 0 []
  | read {i depth vs} (h : Counted i depth vs) (d : Sexp) :
      Counted (i.intern d).2 depth ((i.intern d).1 :: vs)
  | evalIn {i depth vs} (h : Counted i depth vs) {x env} (hx : MadeOf vs x)
      (henv : env < i.store.frames.size) {o c}
      (hends : Config.Ends i.settings ⟨.enter x env, [.report x], depth, i.store⟩ o c) :
      Counted ⟨i.settings, c.store⟩ c.depth (o.values ++ vs)
  | apply {i depth vs} (h : Counted i depth vs) {f args} (hf : MadeOf vs f)
      (hargs : ∀ v ∈ args, MadeOf vs v) {o c}
      (hends : Config.Ends i.settings ⟨.apply f args, [], depth, i.store⟩ o c) :
      Counted ⟨i.settings, c.store⟩ c.depth (o.values ++ vs)
  | newFrame {i depth vs} (h : Counted i depth vs) {parent : Option FrameId}
      (hparent : ∀ p, parent = some p → p < i.store.frames.size) :
      Counted (i.mapStore fun s => s.addFrame ⟨parent, []⟩) depth vs
  | define {i depth vs} (h : Counted i depth vs) {v} (hv : MadeOf vs v) (env : FrameId)
      (name : String) :
      Counted (i.mapStore fun s => s.define env name v) depth vs
  | assign {i depth vs} (h : Counted i depth vs) {v} (hv : MadeOf vs v) {env : FrameId}
      {name : String}
      {s : Store} (hs : i.store.assign env name v = .ok s) : Counted { i with store := s } depth vs

namespace Interpreter

variable {i : Interpreter} {o : Outcome} {c : Config} {control : Control} {tasks : List Task}

/-- A call of a sound interpreter that starts at depth zero ends there. -/
theorem depth_of_ends (hsound : Config.Sound i.store ⟨control, tasks, 0, i.store⟩)
    (htasks : restored tasks 0 = 0)
    (hends : Config.Ends i.settings ⟨control, tasks, 0, i.store⟩ o c) :
    c.depth = 0 ∧ ∃ fuel, i.runFrom fuel control tasks = (o, ⟨i.settings, c.store⟩) := by
  obtain ⟨fuel, hrun, -⟩ := Config.ends_iff_run.1 hends
  have hne : ∀ b, o ≠ .stuck b := by
    rintro b rfl
    have houtcome := (hsound.run i.settings fuel).2
    rw [hrun] at houtcome
    exact houtcome
  have hbalanced : Config.Balanced [] 0 ⟨control, tasks, 0, i.store⟩ :=
    ⟨tasks, (List.append_nil _).symm, htasks⟩
  refine ⟨(hends.returns hne).depth_eq hbalanced, fuel, ?_⟩
  rw [runFrom]
  simp only [hrun]

end Interpreter

/-- **Counting makes no difference**: every call starts at depth zero. -/
theorem Counted.reachable {i : Interpreter} {depth : Nat} {vs : List Value}
    (h : Counted i depth vs) : depth = 0 ∧ Reachable i vs := by
  induction h with
  | start maxDepth recording => exact ⟨rfl, .start maxDepth recording⟩
  | read _ d ih => exact ⟨ih.1, ih.2.read d⟩
  | @evalIn i depth vs _ x env hx henv o c hends ih =>
    obtain ⟨rfl, hi⟩ := ih
    obtain ⟨hstore, hvs⟩ := hi.sound
    obtain ⟨hdepth, fuel, hrun⟩ :=
      Interpreter.depth_of_ends (Interpreter.sound_enter hstore (hx.sound hvs) henv) rfl hends
    have hnext := hi.evalIn hx henv fuel
    rw [Interpreter.evalIn, hrun] at hnext
    exact ⟨hdepth, hnext⟩
  | @apply i depth vs _ f args hf hargs o c hends ih =>
    obtain ⟨rfl, hi⟩ := ih
    obtain ⟨hstore, hvs⟩ := hi.sound
    obtain ⟨hdepth, fuel, hrun⟩ := Interpreter.depth_of_ends
      (Interpreter.sound_apply hstore (hf.sound hvs) fun v hv => (hargs v hv).sound hvs) rfl hends
    have hnext := hi.apply hf hargs fuel
    rw [Interpreter.apply, hrun] at hnext
    exact ⟨hdepth, hnext⟩
  | newFrame _ hparent ih => exact ⟨ih.1, ih.2.newFrame hparent⟩
  | define _ hv env name ih => exact ⟨ih.1, ih.2.define hv env name⟩
  | assign _ hv hs ih => exact ⟨ih.1, ih.2.assign hv hs⟩

/-- **The depth is restored.**  Whatever a configuration is about to do, under whatever bound, it
hands its result, a value or an error, to the tasks that wait for it at the depth at which it
started.  So an interpreter that counts the depth on from call to call finds it at zero before each
of them, after failures too, and is in a state that calls which all start at depth zero lead to. -/
theorem depth_restored :
    (∀ (settings : Settings) (c c' : Config),
      Config.Returns settings c.tasks c c' → c'.depth = c.depth) ∧
    ∀ (i : Interpreter) (depth : Nat) (vs : List Value),
      Counted i depth vs → depth = 0 ∧ Reachable i vs :=
  ⟨fun _ c _ h => h.depth_eq c.balanced_self, fun _ _ _ h => h.reachable⟩

/-- Under the bound one, `((#t))` goes too deep: the failure comes up at depth two and is handed
over at depth zero, where the next call starts. -/
theorem depth_restored_exceeded :
    let d : Sexp := .ofList [.ofList [.boolean true] .nil] .nil
    let x := ((Interpreter.start 1 false).intern d).1
    let i := ((Interpreter.start 1 false).intern d).2
    let c : Config := ⟨.enter x Store.global, [.report x], 0, i.store⟩
    (∃ c' e, ((Config.step i.settings)^[3] c).control = .fail e ∧ e.kind = .depthExceeded ∧
      ((Config.step i.settings)^[3] c).depth = 2 ∧
      Config.Returns i.settings c.tasks c c' ∧ c'.control = .fail e ∧ c'.depth = 0) ∧
    ∃ e c'', Config.Ends i.settings c (.error e) c'' ∧ Counted ⟨i.settings, c''.store⟩ 0 [x] := by
  intro d x i c
  have hcounted : Counted i 0 [x] := .read (.start 1 false) d
  have hx : MadeOf [x] x := fun o ho => ⟨x, List.mem_cons_self, ho⟩
  have hreturns : Config.Returns i.settings c.tasks c ((Config.step i.settings)^[6] c) := by
    have hmore {c' : Config} (h : c'.tasks.length ≠ 1) : ¬ c'.HandsOver c.tasks :=
      fun hover => h (congrArg List.length hover.1)
    refine .step ?_
      (.step (hmore ?_) (.step (hmore ?_) (.step (hmore ?_) (.step (hmore ?_) (.step (hmore ?_)
      (.here ⟨rfl, Or.inr ⟨_, rfl⟩⟩))))))
    · rintro ⟨-, ⟨v, hv⟩ | ⟨e, he⟩⟩
      · cases hv
      · cases he
    all_goals decide
  have hends : Config.Ends i.settings c (.error _) ((Config.step i.settings)^[7] c) :=
    .step rfl (.step rfl (.step rfl (.step rfl (.step rfl (.step rfl (.step rfl (.stopped rfl)))))))
  have hnext := hcounted.evalIn hx Nat.zero_lt_one hends
  obtain ⟨hzero, -⟩ := depth_restored.2 _ _ _ hnext
  rw [hzero] at hnext
  exact ⟨⟨_, _, rfl, rfl, rfl, hreturns, rfl, depth_restored.1 i.settings c _ hreturns⟩,
    _, _, hends, hnext⟩

end Scheme
