import Mathlib
import Scheme.Proofs.Depth

/-!
# A run and the tasks that wait for it

Apart from the bound on the depth, the machine looks at its control and its store only, and it lets
new tasks wait above those that wait already.  So without a bound, a run with tasks waiting is the
run of its control alone, whose outcome is then handed to the tasks.

* `Config.Uniform`: functions that look at the store only, with one lemma for each function of the
  machine;
* `Config.Over`: a configuration, and the same with more tasks waiting below and at any depth;
* `Config.Over.step`: both take the same step;
* `Config.EndsIn`: runs without a bound, with their outcome and store;
* `Config.endsIn_iff`: the run of a control, then what its outcome leads to;
* `Config.endsIn_congr`: tasks that can be exchanged.
-/

namespace Scheme

/-- The settings without a bound on the depth. -/
def Settings.unbounded : Settings := ⟨none⟩

theorem Settings.allows_unbounded (depth : Nat) : Settings.unbounded.Allows depth := rfl

namespace Config

/-! ### Functions that look at the store only -/

/-- The configuration with tasks waiting below, at a depth. -/
def above (c : Config) (tasks : List Task) (depth : Nat) : Config :=
  ⟨c.control, c.tasks ++ tasks, depth, c.store⟩

/-- The function depends on the store only: it keeps the depth and lets tasks wait above others. -/
def Uniform (f : Config → Config) : Prop :=
  ∀ control tasks depth s, f ⟨control, tasks, depth, s⟩ =
    (f ⟨.ret .void, [], 0, s⟩).above tasks depth

section Uniform

variable {f : Config → Config}

/-- Such a function does not look at the control. -/
theorem Uniform.congr_control (h : Uniform f) (control control' : Control) {tasks : List Task}
    {depth : Nat} {s : Store} : f ⟨control, tasks, depth, s⟩ = f ⟨control', tasks, depth, s⟩ :=
  (h _ _ _ _).trans (h _ _ _ _).symm

theorem Uniform.mapStore (h : Uniform f) (g : Store → Store) : Uniform fun c => f (c.mapStore g) :=
  fun control tasks depth s => h control tasks depth (g s)

theorem Uniform.push (h : Uniform f) (task : Task) : Uniform fun c => f (c.push task) := by
  intro control tasks depth s
  show f ⟨control, task :: tasks, depth, s⟩ = (f ⟨.ret .void, [task], 0, s⟩).above tasks depth
  rw [h, h (.ret .void) [task]]
  simp [above]

theorem uniform_ret (v : Value) : Uniform (·.ret v) := fun _ _ _ _ => rfl

theorem uniform_fail (e : EvalError) : Uniform (·.fail e) := fun _ _ _ _ => rfl

theorem uniform_throw (failure : Failure) : Uniform (·.throw failure) := by
  intro control tasks depth s
  cases failure <;> rfl

theorem uniform_evalForms (forms : List Value) (env : FrameId) :
    Uniform (·.evalForms forms env) := by
  intro control tasks depth s
  unfold evalForms
  split <;> rfl

theorem uniform_evalBody (forms : List Value) (env : FrameId) : Uniform (·.evalBody forms env) := by
  intro control tasks depth s
  unfold evalBody
  split <;> rfl

theorem uniform_callPrimitive (p : Primitive) (args : List Value) :
    Uniform (·.callPrimitive p args) := by
  intro control tasks depth s
  simp only [callPrimitive]
  split
  · exact uniform_throw _ control tasks depth s
  all_goals rfl

theorem uniform_callClosure {body : Config → List Value → FrameId → Config}
    (hbody : ∀ forms env, Uniform (body · forms env)) (id : Nat) (name : String)
    (args : List Value) :
    Uniform (·.callClosure id name args body) := by
  intro control tasks depth s
  unfold callClosure
  simp only
  cases s.closures[id]? with
  | none => rfl
  | some closure =>
    simp only
    cases s.bindParameters name closure.params args with
    | error failure => exact uniform_throw failure control tasks depth s
    | ok b =>
      simp only
      split_ifs
      · rfl
      · exact hbody closure.body s.nextFrame control tasks depth _

theorem uniform_call {body : Config → List Value → FrameId → Config}
    (hbody : ∀ forms env, Uniform (body · forms env)) {otherwise : Config → Config}
    (hotherwise : Uniform otherwise) (f : Value) (args : List Value) :
    Uniform (·.call f args body otherwise) := by
  intro control tasks depth s
  unfold call
  split
  · exact uniform_callPrimitive _ args control tasks depth s
  · exact uniform_callClosure hbody _ _ args control tasks depth s
  · exact hotherwise control tasks depth s

theorem uniform_invoke (f : Value) (args : List Value) :
    Uniform (·.call f args evalForms (throw · (.panic (.assertion "procedure")))) :=
  uniform_call uniform_evalForms (uniform_throw _) f args

theorem uniform_apply (f : Value) (args : List Value) :
    Uniform (·.call f args evalBody (fail · (.notCallable f.write))) :=
  uniform_call uniform_evalBody (uniform_fail _) f args

theorem uniform_evalOperands (f : Value) (before after : List Value) (env : FrameId) :
    Uniform (·.evalOperands f before after env) := by
  intro control tasks depth s
  unfold evalOperands
  split <;> rfl

theorem uniform_makeClosure {use : Config → Value → Config} (huse : ∀ v, Uniform (use · v))
    (form : Value) (name : String) (params : Value) (body : List Value) (env : FrameId) :
    Uniform (·.makeClosure form name params body env use) := by
  intro control tasks depth s
  unfold makeClosure
  split
  · exact huse _ control tasks depth _
  · rfl

theorem uniform_bind (name : String) (env : FrameId) (v : Value) : Uniform (·.bind name env v) :=
  (uniform_ret .void).mapStore _

theorem uniform_evalDefine (form : Value) (operands : List Value) (env : FrameId) :
    Uniform (·.evalDefine form operands env) := by
  intro control tasks depth s
  unfold evalDefine
  split
  · rfl
  · rfl
  · exact uniform_makeClosure (uniform_bind _ env) form _ _ _ env control tasks depth s
  · rfl

theorem uniform_evalKeyword (k : Keyword) (form : Value) (operands : List Value) (env : FrameId) :
    Uniform (·.evalKeyword k form operands env) := by
  intro control tasks depth s
  unfold evalKeyword
  split
  · rfl
  · rfl
  · rfl
  · rfl
  · exact uniform_evalForms _ env control tasks depth s
  · exact uniform_makeClosure uniform_ret form "" _ _ env control tasks depth s
  · exact uniform_evalDefine form _ env control tasks depth s
  · simp only
    split <;> rfl
  · rfl
  · rfl

theorem uniform_evalForm (form head tail : Value) (env : FrameId) :
    Uniform (·.evalForm form head tail env) := by
  intro control tasks depth s
  have hkeyword : headKeyword? ⟨control, tasks, depth, s⟩ head env =
      headKeyword? ⟨.ret .void, [], 0, s⟩ head env := rfl
  simp only [evalForm, hkeyword]
  split
  · rfl
  · split
    · rfl
    · exact uniform_evalKeyword _ form _ env control tasks depth s

theorem uniform_evalStep (x : Value) (env : FrameId) : Uniform (·.evalStep x env) := by
  intro control tasks depth s
  unfold evalStep
  split
  · simp only
    split
    · rfl
    · split <;> rfl
  · rfl
  · exact uniform_evalForm _ _ _ env control tasks depth s
  · rfl

theorem uniform_requote (k : Keyword) (x : Value) (level : Nat) (env : FrameId) :
    Uniform (·.requote k x level env) := fun _ _ _ _ => rfl

theorem uniform_expandPair (car cdr : Value) (level : Nat) (env : FrameId) :
    Uniform (·.expandPair car cdr level env) := by
  intro control tasks depth s
  unfold expandPair
  split
  · split_ifs
    · rfl
    · exact (uniform_requote _ _ _ env).push _ control tasks depth s
  · rfl

theorem uniform_expandStep (x : Value) (level : Nat) (env : FrameId) :
    Uniform (·.expandStep x level env) := by
  intro control tasks depth s
  unfold expandStep
  split
  · split
    · split_ifs <;> rfl
    · rfl
    · exact uniform_expandPair _ _ level env control tasks depth s
  · rfl
  · rfl

/-- All tasks but those that come back from a nested evaluation. -/
theorem uniform_resume {task : Task} (h : task ≠ .leave) (v : Value) :
    Uniform (·.resume task v) := by
  intro control tasks depth s
  cases task with
  | leave => exact absurd rfl h
  | operator form operands env =>
    simp only [resume]
    split_ifs
    · split
      · exact uniform_evalOperands v [] _ env control tasks depth s
      · rfl
    · rfl
  | operand f before after env =>
    exact uniform_evalOperands f (v :: before) after env control tasks depth s
  | branch yes no env =>
    simp only [resume]
    split_ifs
    · rfl
    · split <;> rfl
  | forms rest env => exact uniform_evalForms rest env control tasks depth s
  | body rest env =>
    simp only [resume]
    split_ifs
    · rfl
    · exact uniform_evalBody rest env control tasks depth s
  | define name env => exact uniform_bind name env v control tasks depth s
  | assign name env =>
    simp only [resume]
    split <;> rfl
  | gather =>
    simp only [resume]
    split <;> rfl
  | spliceInto items =>
    simp only [resume]
    split <;> rfl
  | _ => rfl

theorem uniform_unwind {task : Task} (h : task ≠ .leave) (e : EvalError) :
    Uniform (·.unwind task e) := by
  intro control tasks depth s
  cases task with
  | leave => exact absurd rfl h
  | _ => rfl

end Uniform

end Config

/-! ### The same run with more tasks waiting -/

namespace Config

/-- The second configuration is the first, at any depth and with more tasks waiting below. -/
structure Over (tasks : List Task) (c c' : Config) : Prop where
  control : c'.control = c.control
  store : c'.store = c.store
  tasks : c'.tasks = c.tasks ++ tasks

namespace Over

variable {tasks rest : List Task} {task : Task} {c c' : Config} {f : Config → Config}

/-- A function that looks at the store only keeps the tasks below. -/
theorem map (h : Over tasks c c') (hf : Uniform f) : Over tasks (f c) (f c') := by
  obtain ⟨control, ts, depth, s⟩ := c
  obtain ⟨control', ts', depth', s'⟩ := c'
  obtain ⟨-, hstore, htasks⟩ := h
  obtain rfl : s' = s := hstore
  obtain rfl : ts' = ts ++ tasks := htasks
  rw [hf _ ts, hf _ (ts ++ tasks)]
  exact ⟨rfl, rfl, (List.append_assoc _ _ _).symm⟩

/-- Both configurations have a first task, and it is the same. -/
theorem pop (h : Over tasks c c') (htasks : c.tasks = task :: rest) :
    c'.tasks = task :: (rest ++ tasks) ∧ Over tasks (c.popTask rest)
      (c'.popTask (rest ++ tasks)) := by
  have habove := h.tasks
  rw [htasks] at habove
  exact ⟨habove, h.control, h.store, rfl⟩

theorem resume (h : Over tasks c c') (task : Task) (v : Value) :
    Over tasks (c.resume task v) (c'.resume task v) := by
  by_cases hleave : task = .leave
  · subst hleave
    exact ⟨rfl, h.store, h.tasks⟩
  · exact h.map (uniform_resume hleave v)

theorem unwind (h : Over tasks c c') (task : Task) (e : EvalError) :
    Over tasks (c.unwind task e) (c'.unwind task e) := by
  by_cases hleave : task = .leave
  · subst hleave
    exact ⟨rfl, h.store, h.tasks⟩
  · exact h.map (uniform_unwind hleave e)

/-- The one step that looks at the depth: without a bound, it only counts it. -/
theorem enterStep (h : Over tasks c c') (x : Value) (env : FrameId) :
    Over tasks (c.enterStep .unbounded x env) (c'.enterStep .unbounded x env) := by
  rw [enterStep_of_allows (Settings.allows_unbounded _),
    enterStep_of_allows (Settings.allows_unbounded _)]
  exact ⟨rfl, h.store, congrArg (.leave :: ·) h.tasks⟩

/-- **Both configurations take the same step**, as long as the first has not stopped. -/
theorem step (h : Over tasks c c') (hc : c.outcome? = none) :
    Over tasks (c.step .unbounded) (c'.step .unbounded) := by
  unfold Config.step
  rw [h.control]
  cases hcontrol : c.control with
  | enter x env => exact h.enterStep x env
  | eval x env => exact h.map (uniform_evalStep x env)
  | expand x level env => exact h.map (uniform_expandStep x level env)
  | invoke f args => exact h.map (uniform_invoke f args)
  | apply f args => exact h.map (uniform_apply f args)
  | ret v =>
    -- the first configuration has a task left, so the second does not reach those below
    simp only
    cases htasks : c.tasks with
    | nil => simp [outcome?, hcontrol, htasks] at hc
    | cons task rest =>
      obtain ⟨htasks', hrest⟩ := h.pop htasks
      rw [htasks']
      exact hrest.resume task v
  | fail e =>
    simp only
    cases htasks : c.tasks with
    | nil => simp [outcome?, hcontrol, htasks] at hc
    | cons task rest =>
      obtain ⟨htasks', hrest⟩ := h.pop htasks
      rw [htasks']
      exact hrest.unwind task e
  | stuck b => simp [outcome?, hcontrol] at hc

/-- The second configuration does not stop before the first. -/
theorem outcome?_eq_none (h : Over tasks c c') (hc : c.outcome? = none) : c'.outcome? = none := by
  unfold outcome? at *
  rw [h.control]
  cases hcontrol : c.control with
  | stuck => simp [hcontrol] at hc
  | ret v | fail e =>
    cases htasks : c.tasks with
    | nil => simp [hcontrol, htasks] at hc
    | cons task rest =>
      rw [(h.pop htasks).1]
  | _ => rfl

end Over

end Config

/-! ### Runs without a bound -/

/-- What an outcome hands to the tasks that wait.  An evaluation that is not finished does not come
to that. -/
def Outcome.control : Outcome → Control
  | .value v => .ret v
  | .error e => .fail e
  | .stuck b => .stuck b
  | .unfinished => .ret .void

namespace Config

/-- Without a bound on the depth the machine stops, with this outcome and this store. -/
def EndsIn (c : Config) (o : Outcome) (s : Store) : Prop :=
  ∃ c', Ends .unbounded c o c' ∧ c'.store = s

variable {c c' c₁ c'' : Config} {o r : Outcome} {s s' : Store} {control : Control}
    {tasks : List Task}

theorem endsIn_step : EndsIn (c.step .unbounded) o s ↔ EndsIn c o s :=
  exists_congr fun _ => and_congr_left fun _ => ends_step_iff

theorem endsIn_eval {x : Value} {env : FrameId} {depth : Nat} :
    EndsIn ⟨.eval x env, tasks, depth, s⟩ o s' ↔
    EndsIn (evalStep ⟨.eval x env, tasks, depth, s⟩ x env) o s' := endsIn_step.symm

theorem endsIn_ret {v : Value} {task : Task} {depth : Nat} :
    EndsIn ⟨.ret v, task :: tasks, depth, s⟩ o s' ↔
    EndsIn (resume ⟨.ret v, tasks, depth, s⟩ task v) o s' := endsIn_step.symm

theorem endsIn_fail {e : EvalError} {task : Task} {depth : Nat} :
    EndsIn ⟨.fail e, task :: tasks, depth, s⟩ o s' ↔
      EndsIn (unwind ⟨.fail e, tasks, depth, s⟩ task e) o s' := endsIn_step.symm

theorem endsIn_of_outcome (h : c.outcome? = some r) : EndsIn c o s ↔ o = r ∧ s = c.store := by
  constructor
  · rintro ⟨c', hends, rfl⟩
    obtain ⟨rfl, rfl⟩ := (ends_of_outcome h).1 hends
    exact ⟨rfl, rfl⟩
  · rintro ⟨rfl, rfl⟩
    exact ⟨c, .stopped h, rfl⟩

theorem endsIn_stuck {b : Breach} {depth : Nat} :
    EndsIn ⟨.stuck b, tasks, depth, s⟩ o s' ↔ o = .stuck b ∧ s' = s :=
  endsIn_of_outcome rfl

theorem EndsIn.ne_unfinished (h : EndsIn c o s) : o ≠ .unfinished := by
  obtain ⟨c', hends, -⟩ := h
  exact ne_unfinished_of_outcome hends.outcome

/-- A machine that has stopped hands over its outcome, or is stuck. -/
theorem control_of_outcome (h : c.outcome? = some r) :
    c.control = r.control ∧ (c.tasks = [] ∨ ∃ b, c.control = .stuck b) := by
  unfold outcome? at h
  split at h
  · next hcontrol htasks =>
    cases h
    exact ⟨hcontrol, Or.inl htasks⟩
  · next hcontrol htasks =>
    cases h
    exact ⟨hcontrol, Or.inl htasks⟩
  · next hcontrol =>
    cases h
    exact ⟨hcontrol, Or.inr ⟨_, hcontrol⟩⟩
  · cases h

/-- An outcome that no task waits for stays as it is. -/
theorem endsIn_control (hr : r ≠ .unfinished) (depth : Nat) :
    EndsIn ⟨r.control, [], depth, s⟩ o s' ↔ o = r ∧ s' = s := by
  refine endsIn_of_outcome ?_
  cases r with
  | unfinished => exact absurd rfl hr
  | _ => rfl

namespace Over

/-- The first configuration comes to its end while the second goes along. -/
theorem along (h : Over tasks c c') (hends : Ends .unbounded c r c₁) :
    ∃ c₁', Over tasks c₁ c₁' ∧ ∀ o s, EndsIn c' o s ↔ EndsIn c₁' o s := by
  induction hends generalizing c' with
  | stopped _ => exact ⟨c', h, fun _ _ => Iff.rfl⟩
  | step hnone _ ih =>
    obtain ⟨c₁', hover, hiff⟩ := ih (h.step hnone)
    exact ⟨c₁', hover, fun o s => endsIn_step.symm.trans (hiff o s)⟩

/-- If the second configuration comes to an end, so does the first. -/
theorem exists_ends (h : Over tasks c c') (hends : Ends .unbounded c' o c'') :
    ∃ r c₁, Ends .unbounded c r c₁ := by
  induction hends generalizing c with
  | stopped hstop =>
    cases hc : c.outcome? with
    | some r => exact ⟨r, c, .stopped hc⟩
    | none =>
      rw [h.outcome?_eq_none hc] at hstop
      cases hstop
  | step _ _ ih =>
    cases hc : c.outcome? with
    | some r => exact ⟨r, c, .stopped hc⟩
    | none =>
      obtain ⟨r, c₁, hrest⟩ := ih (h.step hc)
      exact ⟨r, c₁, .step hc hrest⟩

/-- When the first configuration has stopped, the second hands its outcome to the tasks below. -/
theorem endsIn_iff_of_outcome (h : Over tasks c c') (hc : c.outcome? = some r) :
    EndsIn c' o s ↔ EndsIn ⟨r.control, tasks, c'.depth, c.store⟩ o s := by
  obtain ⟨hcontrol, hstopped⟩ := control_of_outcome hc
  obtain ⟨control', tasks', depth', s'⟩ := c'
  obtain ⟨rfl, rfl, rfl⟩ := h
  rcases hstopped with htasks | ⟨b, hstuck⟩
  · rw [htasks, hcontrol]
    rfl
  · rw [← hcontrol, hstuck]
    exact endsIn_stuck.trans endsIn_stuck.symm

end Over

/-- Without a bound the depth makes no difference. -/
theorem EndsIn.depth {depth depth' : Nat} (h : EndsIn ⟨control, tasks, depth, s⟩ o s') :
    EndsIn ⟨control, tasks, depth', s⟩ o s' := by
  have hover : Over [] ⟨control, tasks, depth, s⟩ ⟨control, tasks, depth', s⟩ :=
    ⟨rfl, rfl, (List.append_nil tasks).symm⟩
  have hne := h.ne_unfinished
  obtain ⟨c₁, hends, rfl⟩ := h
  obtain ⟨c₁', hover₁, hiff⟩ := hover.along hends
  rw [hiff, hover₁.endsIn_iff_of_outcome hends.outcome, endsIn_control hne]
  exact ⟨rfl, rfl⟩

theorem endsIn_depth {depth depth' : Nat} :
    EndsIn ⟨control, tasks, depth, s⟩ o s' ↔ EndsIn ⟨control, tasks, depth', s⟩ o s' :=
  ⟨EndsIn.depth, EndsIn.depth⟩

/-- **A run with tasks waiting** is the run of its control alone, whose outcome is then handed to
the tasks. -/
theorem endsIn_iff {depth : Nat} : EndsIn ⟨control, tasks, depth, s⟩ o s' ↔
    ∃ r s₁, EndsIn ⟨control, [], 0, s⟩ r s₁ ∧ EndsIn ⟨r.control, tasks, 0, s₁⟩ o s' := by
  have hover : Over tasks ⟨control, [], 0, s⟩ ⟨control, tasks, depth, s⟩ :=
    ⟨rfl, rfl, rfl⟩
  constructor
  · -- the end of the long run bounds the run of the control alone
    rintro ⟨c', hends', rfl⟩
    obtain ⟨r, c₁, hends⟩ := hover.exists_ends hends'
    obtain ⟨c₁', hover₁, hiff⟩ := hover.along hends
    have hrest := (hiff o c'.store).1 ⟨c', hends', rfl⟩
    rw [hover₁.endsIn_iff_of_outcome hends.outcome] at hrest
    exact ⟨r, c₁.store, ⟨c₁, hends, rfl⟩, hrest.depth⟩
  · rintro ⟨r, s₁, ⟨c₁, hends, rfl⟩, hrest⟩
    obtain ⟨c₁', hover₁, hiff⟩ := hover.along hends
    rw [hiff, hover₁.endsIn_iff_of_outcome hends.outcome]
    exact hrest.depth

/-- Tasks can be exchanged for others that make the same of every value and of every error. -/
theorem endsIn_congr {tasks' : List Task} {depth : Nat}
    (hret : ∀ v s₁, EndsIn ⟨.ret v, tasks, 0, s₁⟩ o s' ↔ EndsIn ⟨.ret v, tasks', 0, s₁⟩ o s')
    (hfail : ∀ e s₁, EndsIn ⟨.fail e, tasks, 0, s₁⟩ o s' ↔ EndsIn ⟨.fail e, tasks', 0, s₁⟩ o s') :
    EndsIn ⟨control, tasks, depth, s⟩ o s' ↔ EndsIn ⟨control, tasks', depth, s⟩ o s' := by
  rw [endsIn_iff]
  refine Iff.trans ?_ endsIn_iff.symm
  refine exists_congr fun r => exists_congr fun s₁ => and_congr_right fun hends => ?_
  cases r with
  | value v => exact hret v s₁
  | error e => exact hfail e s₁
  | stuck b => exact endsIn_stuck.trans endsIn_stuck.symm
  | unfinished => exact absurd rfl hends.ne_unfinished

end Config

end Scheme
