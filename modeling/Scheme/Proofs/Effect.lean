import Mathlib
import Scheme.Proofs.Balance
import Scheme.Proofs.Composition

/-!
# Effects of runs

What a control of the machine comes to, once the settings, the depth and the frame are given, is a
matter of the store: it is a relation between the store before, the outcome and the store after.
Such relations are put together one after the other, as the machine puts tasks above others.

* `Config.onto`: more tasks wait below, and `Config.step_onto`: they change nothing under any bound;
* `Effect`: relations between stores and outcomes, with `give`, `fail`, `fresh` and `andThen`;
* `Scope`: the settings, the depth and the frame; `Scope.runs`: what a control above tasks comes to;
* `Scope.runs_eq_andThen`: the run of a control alone, then what the tasks make of its value;
* `Datum.unlabelled`, `Effect.Agree`: values without their labels, and effects that are the same but
  for labels.
-/

namespace Scheme

/-! ### The same run above other tasks, under any bound -/

namespace Config

/-- The configuration with more tasks waiting below. -/
def onto (c : Config) (tasks : List Task) : Config := { c with tasks := c.tasks ++ tasks }

variable {settings : Settings} {c c' c₁ : Config} {o r : Outcome} {tasks : List Task}

theorem Uniform.onto {f : Config → Config} (hf : Uniform f) (c : Config) (tasks : List Task) :
    f (c.onto tasks) = (f c).onto tasks := by
  obtain ⟨control, ts, depth, s⟩ := c
  show f ⟨control, ts ++ tasks, depth, s⟩ = (f ⟨control, ts, depth, s⟩).onto tasks
  rw [hf control (ts ++ tasks), hf control ts]
  simp [above, Config.onto]

theorem enterStep_onto (c : Config) (x : Value) (env : FrameId) :
    (c.onto tasks).enterStep settings x env = (c.enterStep settings x env).onto tasks := by
  by_cases hdepth : settings.Allows c.depth
  · rw [enterStep_of_allows hdepth, enterStep_of_allows (c := c.onto tasks) hdepth]
    rfl
  · rw [enterStep_of_not_allows hdepth, enterStep_of_not_allows (c := c.onto tasks) hdepth]
    rfl

theorem resume_onto (c : Config) (task : Task) (v : Value) :
    (c.onto tasks).resume task v = (c.resume task v).onto tasks := by
  by_cases hleave : task = .leave
  · subst hleave
    rfl
  · exact (uniform_resume hleave v).onto c tasks

theorem unwind_onto (c : Config) (task : Task) (e : EvalError) :
    (c.onto tasks).unwind task e = (c.unwind task e).onto tasks := by
  cases task <;> rfl

/-- **Tasks below make no difference to a step**, as long as the configuration has not stopped. -/
theorem step_onto (hc : c.outcome? = none) :
    (c.onto tasks).step settings = (c.step settings).onto tasks := by
  have hcontrol : (c.onto tasks).control = c.control := rfl
  unfold step
  rw [hcontrol]
  cases hctl : c.control with
  | enter x env => exact enterStep_onto c x env
  | eval x env => exact (uniform_evalStep x env).onto c tasks
  | expand x level env => exact (uniform_expandStep x level env).onto c tasks
  | invoke f args => exact (uniform_invoke f args).onto c tasks
  | apply f args => exact (uniform_apply f args).onto c tasks
  | ret v =>
    cases htasks : c.tasks with
    | nil => simp [outcome?, hctl, htasks] at hc
    | cons task rest =>
      have hbelow : (c.onto tasks).tasks = task :: (rest ++ tasks) := congrArg (· ++ tasks) htasks
      simp only [hbelow]
      exact resume_onto (c.popTask rest) task v
  | fail e =>
    cases htasks : c.tasks with
    | nil => simp [outcome?, hctl, htasks] at hc
    | cons task rest =>
      have hbelow : (c.onto tasks).tasks = task :: (rest ++ tasks) := congrArg (· ++ tasks) htasks
      simp only [hbelow]
      exact unwind_onto (c.popTask rest) task e
  | stuck => rfl

theorem outcome?_onto (hc : c.outcome? = none) : (c.onto tasks).outcome? = none := by
  unfold outcome? at *
  have hcontrol : (c.onto tasks).control = c.control := rfl
  rw [hcontrol]
  cases hctl : c.control with
  | stuck => simp [hctl] at hc
  | ret v | fail e =>
    cases htasks : c.tasks with
    | nil => simp [hctl, htasks] at hc
    | cons task rest =>
      have hbelow : (c.onto tasks).tasks = task :: (rest ++ tasks) := congrArg (· ++ tasks) htasks
      rw [hbelow]
  | _ => rfl

/-- A run above tasks is the run without them, and then goes on from where that one ends. -/
theorem ends_onto : Ends settings (c.onto tasks) o c' ↔
    ∃ r c₁, Ends settings c r c₁ ∧ Ends settings (c₁.onto tasks) o c' := by
  constructor
  · -- on the run above the tasks: until the configuration without them stops, both take the same
    -- steps
    intro h
    generalize hd : c.onto tasks = d at h
    induction h generalizing c with
    | @stopped d o hstop =>
      subst hd
      cases hc : c.outcome? with
      | some r => exact ⟨r, c, .stopped hc, .stopped hstop⟩
      | none =>
        rw [outcome?_onto hc] at hstop
        cases hstop
    | @step d d' o hnone hrest ih =>
      subst hd
      cases hc : c.outcome? with
      | some r => exact ⟨r, c, .stopped hc, .step hnone hrest⟩
      | none =>
        obtain ⟨r, c₁, hfirst, hlast⟩ := ih (step_onto hc).symm
        exact ⟨r, c₁, .step hc hfirst, hlast⟩
  · rintro ⟨r, c₁, hfirst, hlast⟩
    induction hfirst with
    | stopped _ => exact hlast
    | step hc _ ih =>
      refine .step (outcome?_onto hc) ?_
      rw [step_onto hc]
      exact ih hlast

/-- A control alone ends at the depth at which it started, unless it is stuck. -/
theorem Ends.onto_eq {control : Control} {depth : Nat} {s : Store} (tasks : List Task)
    (h : Ends settings ⟨control, [], depth, s⟩ r c₁) (hr : ∀ b, r ≠ .stuck b) :
    c₁.onto tasks = ⟨r.control, tasks, depth, c₁.store⟩ := by
  have hdepth : c₁.depth = depth := (h.returns hr).depth_eq (balanced_self _)
  obtain ⟨hcontrol, htasks⟩ := control_of_outcome h.outcome
  have hstopped : c₁.tasks = [] := by
    rcases htasks with htasks | hstuck
    · exact htasks
    · obtain ⟨b, hb⟩ := hstuck
      rw [hcontrol] at hb
      cases r with
      | value v => cases hb
      | error e => cases hb
      | stuck b => exact absurd rfl (hr b)
      | unfinished => exact absurd rfl (ne_unfinished_of_outcome h.outcome)
  obtain ⟨control₁, tasks₁, depth₁, s₁⟩ := c₁
  subst hcontrol hstopped hdepth
  rfl

end Config

/-! ### Effects of runs -/

/-- What is computed from a store: an outcome, and a store. -/
abbrev Effect := Store → Outcome → Store → Prop

namespace Effect

/-- Give a value. -/
def give (v : Value) : Effect := fun s o s' => o = .value v ∧ s' = s

/-- Fail with an error. -/
def fail (e : EvalError) : Effect := fun s o s' => o = .error e ∧ s' = s

/-- Go on with a fresh stamp. -/
def fresh (k : Nat → Effect) : Effect := fun s => k s.clock s.tick

/-- Go on with the value; what is no value stays as it is. -/
def andThen (m : Effect) (k : Value → Effect) : Effect := fun s o s' =>
  ∃ r s₁, m s r s₁ ∧
    match r with
    | .value v => k v s₁ o s'
    | r => o = r ∧ s' = s₁

@[simp] theorem give_andThen (v : Value) (k : Value → Effect) : (give v).andThen k = k v := by
  funext s o s'
  refine propext ⟨?_, fun h => ⟨.value v, s, ⟨rfl, rfl⟩, h⟩⟩
  rintro ⟨r, s₁, ⟨rfl, rfl⟩, h⟩
  exact h

@[simp] theorem fresh_andThen (k : Nat → Effect) (j : Value → Effect) :
    (fresh k).andThen j = fresh fun stamp => (k stamp).andThen j := rfl

@[simp] theorem andThen_give (m : Effect) : m.andThen give = m := by
  funext s o s'
  refine propext ⟨?_, fun h => ⟨o, s', h, ?_⟩⟩
  · rintro ⟨r, s₁, h, hrest⟩
    cases r with
    | value v =>
      obtain ⟨rfl, rfl⟩ := hrest
      exact h
    | _ =>
      obtain ⟨rfl, rfl⟩ := hrest
      exact h
  · cases o <;> exact ⟨rfl, rfl⟩

theorem andThen_assoc (m : Effect) (k j : Value → Effect) :
    (m.andThen k).andThen j = m.andThen fun v => (k v).andThen j := by
  funext s o s'
  refine propext ⟨?_, ?_⟩
  · rintro ⟨r, s₁, ⟨r₀, s₀, hm, hk⟩, hj⟩
    refine ⟨r₀, s₀, hm, ?_⟩
    cases r₀ with
    | value v => exact ⟨r, s₁, hk, hj⟩
    | _ =>
      obtain ⟨rfl, rfl⟩ := hk
      exact hj
  · rintro ⟨r, s₁, hm, hk⟩
    cases r with
    | value v =>
      obtain ⟨r₁, s₂, hr₁, hj⟩ := hk
      exact ⟨r₁, s₂, ⟨_, s₁, hm, hr₁⟩, hj⟩
    | _ =>
      obtain ⟨rfl, rfl⟩ := hk
      exact ⟨_, _, ⟨_, _, hm, rfl, rfl⟩, rfl, rfl⟩

end Effect

/-! ### Runs as effects -/

/-- The circumstances of an evaluation: the settings, the depth and the frame. -/
structure Scope where
  settings : Settings
  depth : Nat
  env : FrameId

/-- The task hands an error on as it is. -/
def Task.PassesErrors (t : Task) : Prop := ∀ (c : Config) e, c.unwind t e = c.fail e

namespace Scope

open Effect

variable (w : Scope) {control control' : Control} {tasks tasks' : List Task} {s s₁ : Store}

/-- What a control above tasks comes to. -/
def runs (control : Control) (tasks : List Task) : Effect := fun s o s' =>
  ∃ c', Config.Ends w.settings ⟨control, tasks, w.depth, s⟩ o c' ∧ c'.store = s'

/-- What the evaluation of an expression comes to. -/
def evaluation (x : Value) : Effect := w.runs (.enter x w.env) []

/-- What the expansion of a template at a level of quasiquotation comes to. -/
def expansion (level : Nat) (x : Value) : Effect := w.runs (.expand x level w.env) []

variable {w}

/-- A step does not change what a control comes to. -/
theorem runs_of_step
    (h : Config.step w.settings ⟨control, tasks, w.depth, s⟩ = ⟨control', tasks', w.depth, s₁⟩) :
    w.runs control tasks s = w.runs control' tasks' s₁ := by
  funext o s'
  refine propext (exists_congr fun c' => and_congr_left fun _ => ?_)
  rw [← h]
  exact Config.ends_step_iff.symm

theorem runs_of_outcome {r : Outcome} (h : Config.outcome? ⟨control, tasks, w.depth, s⟩ = some r)
    (o : Outcome) (s' : Store) : w.runs control tasks s o s' ↔ o = r ∧ s' = s := by
  constructor
  · rintro ⟨c', hends, rfl⟩
    obtain ⟨rfl, rfl⟩ := (Config.ends_of_outcome h).1 hends
    exact ⟨rfl, rfl⟩
  · rintro ⟨rfl, rfl⟩
    exact ⟨_, .stopped h, rfl⟩

theorem runs_ret (v : Value) : w.runs (.ret v) [] = give v := by
  funext s o s'
  exact propext (runs_of_outcome rfl o s')

/-- An error passes through tasks that hand it on. -/
theorem runs_fail (htasks : ∀ t ∈ tasks, t.PassesErrors) (e : EvalError) :
    w.runs (.fail e) tasks = fail e := by
  induction tasks with
  | nil =>
    funext s o s'
    exact propext (runs_of_outcome rfl o s')
  | cons t rest ih =>
    rw [List.forall_mem_cons] at htasks
    rw [← ih htasks.2]
    funext s
    exact runs_of_step (htasks.1 ⟨.fail e, rest, w.depth, s⟩ e)

/-- A step to a value that nothing waits for. -/
theorem runs_of_ret {v : Value}
    (h : Config.step w.settings ⟨control, tasks, w.depth, s⟩ = ⟨.ret v, [], w.depth, s₁⟩) :
    w.runs control tasks s = give v s₁ := by
  rw [runs_of_step h, runs_ret]

/-- A step to an error that nothing waits for. -/
theorem runs_of_fail {e : EvalError}
    (h : Config.step w.settings ⟨control, tasks, w.depth, s⟩ = ⟨.fail e, [], w.depth, s₁⟩) :
    w.runs control tasks s = fail e s₁ := by
  rw [runs_of_step h, runs_fail (List.forall_mem_nil _)]

/-- The run of a control above tasks, by the outcome of the control alone. -/
theorem runs_iff (o : Outcome) (s' : Store) : w.runs control tasks s o s' ↔
    ∃ r s₁, w.runs control [] s r s₁ ∧ w.runs r.control tasks s₁ o s' := by
  -- a stuck control hands nothing to the tasks, so it ends with them still waiting
  have hstuck (c₁ : Config) (b : Breach) (h : c₁.control = .stuck b) (o : Outcome) (c' : Config) :
      Config.Ends w.settings c₁ o c' ↔ o = .stuck b ∧ c' = c₁ :=
    Config.ends_of_outcome (by rw [Config.outcome?, h])
  have honto :
      (⟨control, tasks, w.depth, s⟩ : Config) = Config.onto ⟨control, [], w.depth, s⟩ tasks := rfl
  constructor
  · rintro ⟨c', hends, rfl⟩
    rw [honto, Config.ends_onto] at hends
    obtain ⟨r, c₁, hfirst, hlast⟩ := hends
    refine ⟨r, c₁.store, ⟨c₁, hfirst, rfl⟩, ?_⟩
    by_cases hr : ∃ b, r = .stuck b
    · obtain ⟨b, rfl⟩ := hr
      obtain ⟨hcontrol, -⟩ := Config.control_of_outcome hfirst.outcome
      obtain ⟨rfl, rfl⟩ := (hstuck (c₁.onto tasks) b hcontrol o c').1 hlast
      exact ⟨_, .stopped rfl, rfl⟩
    · rw [hfirst.onto_eq tasks (not_exists.1 hr)] at hlast
      exact ⟨c', hlast, rfl⟩
  · rintro ⟨r, s₁, ⟨c₁, hfirst, rfl⟩, c', hlast, rfl⟩
    by_cases hr : ∃ b, r = .stuck b
    · obtain ⟨b, rfl⟩ := hr
      obtain ⟨hcontrol, -⟩ := Config.control_of_outcome hfirst.outcome
      obtain ⟨rfl, rfl⟩ := (hstuck _ b rfl o c').1 hlast
      refine ⟨c₁.onto tasks, ?_, rfl⟩
      rw [honto, Config.ends_onto]
      exact ⟨.stuck b, c₁, hfirst, (hstuck (c₁.onto tasks) b hcontrol _ _).2 ⟨rfl, rfl⟩⟩
    · refine ⟨c', ?_, rfl⟩
      rw [honto, Config.ends_onto]
      refine ⟨r, c₁, hfirst, ?_⟩
      rw [hfirst.onto_eq tasks (not_exists.1 hr)]
      exact hlast

/-- **The run of a control above tasks that hand errors on** is the run of the control alone, and
then what the tasks make of its value. -/
theorem runs_eq_andThen (htasks : ∀ t ∈ tasks, t.PassesErrors) :
    w.runs control tasks = (w.runs control []).andThen fun v => w.runs (.ret v) tasks := by
  funext s o s'
  refine propext
    ((runs_iff o s').trans (exists_congr fun r => exists_congr fun s₁ => and_congr_right ?_))
  rintro ⟨c₁, hends, -⟩
  cases r with
  | value v => exact Iff.rfl
  | error e =>
    show w.runs (.fail e) tasks s₁ o s' ↔ _
    rw [runs_fail htasks]
    exact Iff.rfl
  | stuck b => exact runs_of_outcome rfl o s'
  | unfinished => exact absurd rfl (Config.ne_unfinished_of_outcome hends.outcome)

end Scope

/-! ### Values without their labels -/

namespace Datum

variable {ι ξ : Type}

mutual

/-- The datum without its labels. -/
def unlabelled : Datum ι ξ → Datum Unit ξ
  | .symbol s => .symbol s
  | .boolean b => .boolean b
  | .char c => .char c
  | .string s => .string s
  | .number n => .number n
  | .nil => .nil
  | .pair _ car cdr => .pair () car.unlabelled cdr.unlabelled
  | .vector _ items => .vector () (unlabelledItems items)
  | .bytes _ data => .bytes () data
  | .object x => .object x

/-- The data without their labels. -/
def unlabelledItems : List (Datum ι ξ) → List (Datum Unit ξ)
  | [] => []
  | x :: xs => x.unlabelled :: unlabelledItems xs

end

/-- The elements and the end of a chain make up the datum, but for the labels. -/
theorem unlabelled_eq_foldr : (d : Datum ι ξ) →
    d.unlabelled = d.spine.1.foldr (fun x rest => .pair () x.unlabelled rest) d.spine.2.unlabelled
  | .pair l a d => by
    rw [unlabelled, unlabelled_eq_foldr d]
    rfl
  | .symbol _ | .boolean _ | .char _ | .string _ | .number _ | .nil
  | .vector _ _ | .bytes _ _ | .object _ => rfl

theorem unlabelled_eq_of_spine {d d' : Datum ι ξ} (h : d.spine = d'.spine) :
    d.unlabelled = d'.unlabelled := by
  rw [unlabelled_eq_foldr d, unlabelled_eq_foldr d', h]

end Datum

/-! ### Agreement -/

/-- The stores are the same but for the clock. -/
def Store.SameButClock (s s' : Store) : Prop := s' = { s with clock := s'.clock }

/-- The outcomes are the same but for the labels of a value; errors are compared by `same`. -/
def Outcome.Alike (same : EvalError → EvalError → Prop) : Outcome → Outcome → Prop
  | .value v, .value v' => v.unlabelled = v'.unlabelled
  | .error e, .error e' => same e e'
  | .stuck b, .stuck b' => b = b'
  | .unfinished, .unfinished => True
  | _, _ => False

theorem Outcome.Alike.refl {same : EvalError → EvalError → Prop} (hsame : ∀ e, same e e)
    (o : Outcome) :
    o.Alike same o := by
  cases o with
  | value v => rfl
  | error e => exact hsame e
  | stuck b => rfl
  | unfinished => trivial

theorem Outcome.Alike.symm {same : EvalError → EvalError → Prop}
    (hsame : ∀ e e', same e e' → same e' e) {o o' : Outcome} (h : o.Alike same o') :
    o'.Alike same o := by
  cases o with
  | value v =>
    cases o' with
    | value v' => exact (show v.unlabelled = v'.unlabelled from h).symm
    | _ => exact False.elim h
  | error e =>
    cases o' with
    | error e' => exact hsame e e' h
    | _ => exact False.elim h
  | stuck b =>
    cases o' with
    | stuck b' => exact (show b = b' from h).symm
    | _ => exact False.elim h
  | unfinished =>
    cases o' with
    | unfinished => exact h
    | _ => exact False.elim h

theorem Outcome.Alike.trans {same : EvalError → EvalError → Prop}
    (hsame : ∀ e e' e'', same e e' → same e' e'' → same e e'') {o o' o'' : Outcome}
    (h : o.Alike same o') (h' : o'.Alike same o'') : o.Alike same o'' := by
  cases o with
  | value v =>
    cases o' with
    | value v' =>
      cases o'' with
      | value v'' =>
        exact (show v.unlabelled = v'.unlabelled from h).trans
          (show v'.unlabelled = v''.unlabelled from h')
      | _ => exact False.elim h'
    | _ => exact False.elim h
  | error e =>
    cases o' with
    | error e' =>
      cases o'' with
      | error e'' => exact hsame e e' e'' h h'
      | _ => exact False.elim h'
    | _ => exact False.elim h
  | stuck b =>
    cases o' with
    | stuck b' =>
      obtain rfl : b = b' := h
      exact h'
    | _ => exact False.elim h
  | unfinished =>
    cases o' with
    | unfinished => exact h'
    | _ => exact False.elim h

namespace Effect

variable {same : EvalError → EvalError → Prop} {m m' : Effect}

/-- From every store both effects lead to outcomes that are alike, and to stores that are the same
but for the clock. -/
def Agree (same : EvalError → EvalError → Prop) (m m' : Effect) : Prop :=
  ∀ s, (∀ o s₁, m s o s₁ → ∃ o' s₂, m' s o' s₂ ∧ o.Alike same o' ∧ s₁.SameButClock s₂) ∧
    ∀ o' s₂, m' s o' s₂ → ∃ o s₁, m s o s₁ ∧ o.Alike same o' ∧ s₁.SameButClock s₂

theorem Agree.andThen (hsame : ∀ e, same e e) (m : Effect) {k k' : Value → Effect}
    (h : ∀ v, Agree same (k v) (k' v)) : Agree same (m.andThen k) (m.andThen k') := by
  intro s
  constructor
  · rintro o s₁ ⟨r, s₀, hm, hk⟩
    cases r with
    | value v =>
      obtain ⟨o', s₂, hk', halike⟩ := (h v s₀).1 o s₁ hk
      exact ⟨o', s₂, ⟨.value v, s₀, hm, hk'⟩, halike⟩
    | _ =>
      obtain ⟨rfl, rfl⟩ := hk
      exact ⟨_, _, ⟨_, _, hm, rfl, rfl⟩, .refl hsame _, rfl⟩
  · rintro o s₁ ⟨r, s₀, hm, hk⟩
    cases r with
    | value v =>
      obtain ⟨o', s₂, hk', halike⟩ := (h v s₀).2 o s₁ hk
      exact ⟨o', s₂, ⟨.value v, s₀, hm, hk'⟩, halike⟩
    | _ =>
      obtain ⟨rfl, rfl⟩ := hk
      exact ⟨_, _, ⟨_, _, hm, rfl, rfl⟩, .refl hsame _, rfl⟩

theorem Agree.fresh {k k' : Nat → Effect} (h : ∀ stamp, Agree same (k stamp) (k' stamp)) :
    Agree same (fresh k) (fresh k') :=
  fun s => h s.clock s.tick

/-- From the store, the effect is one outcome, which has the property, and at most a change of the
clock. -/
def ComesTo (m : Effect) (s : Store) (P : Outcome → Prop) : Prop :=
  ∃ o n, P o ∧ ∀ o' s', m s o' s' ↔ o' = o ∧ s' = { s with clock := n }

variable {P Q : Outcome → Prop} {s : Store}

theorem comesTo_give {v : Value} (h : P (.value v)) (s : Store) : (give v).ComesTo s P :=
  ⟨.value v, s.clock, h, fun _ _ => Iff.rfl⟩

theorem comesTo_fail {e : EvalError} (h : P (.error e)) (s : Store) : (fail e).ComesTo s P :=
  ⟨.error e, s.clock, h, fun _ _ => Iff.rfl⟩

theorem ComesTo.fresh {k : Nat → Effect} (h : (k s.clock).ComesTo s.tick P) :
    (fresh k).ComesTo s P := h

/-- What comes after a value goes on from a store that is the same but for the clock. -/
theorem ComesTo.andThen {k : Value → Effect} (h : m.ComesTo s P)
    (hvalue : ∀ v n, P (.value v) → (k v).ComesTo { s with clock := n } Q)
    (herror : ∀ e, P (.error e) → Q (.error e)) (hstuck : ∀ b, ¬ P (.stuck b))
    (hunfinished : ¬ P .unfinished) :
    (m.andThen k).ComesTo s Q := by
  obtain ⟨o, n, ho, hm⟩ := h
  have hfirst (r : Outcome) (s₁ : Store) (hr : m s r s₁) : r = o ∧ s₁ = { s with clock := n } :=
    (hm r s₁).1 hr
  cases o with
  | value v =>
    obtain ⟨o', n', ho', hk⟩ := hvalue v n ho
    refine ⟨o', n', ho', fun r s' => ⟨?_, fun hr => ⟨_, _, (hm _ _).2 ⟨rfl, rfl⟩, (hk r s').2 hr⟩⟩⟩
    rintro ⟨r', s₁, hr', hrest⟩
    obtain ⟨rfl, rfl⟩ := hfirst r' s₁ hr'
    exact (hk r s').1 hrest
  | error e =>
    refine ⟨.error e, n, herror e ho, fun r s' => ⟨?_, fun hr => ⟨_, _, (hm _ _).2 ⟨rfl, rfl⟩, hr⟩⟩⟩
    rintro ⟨r', s₁, hr', hrest⟩
    obtain ⟨rfl, rfl⟩ := hfirst r' s₁ hr'
    exact hrest
  | stuck b => exact absurd ho (hstuck b)
  | unfinished => exact absurd ho hunfinished

/-- An effect that gives a value goes on with it. -/
theorem ComesTo.andThen_value {R : Value → Prop} {k : Value → Effect}
    (h : m.ComesTo s fun o => ∃ v, o = .value v ∧ R v) (hk : ∀ v s, R v → (k v).ComesTo s Q) :
    (m.andThen k).ComesTo s Q := by
  refine h.andThen (fun v n hv => ?_) (by simp) (by simp) (by simp)
  obtain ⟨_, ⟨⟩, hv⟩ := hv
  exact hk v _ hv

/-- An effect that fails does not go on. -/
theorem ComesTo.andThen_error {e : EvalError} (h : m.ComesTo s (· = .error e))
    (k : Value → Effect) :
    (m.andThen k).ComesTo s (· = .error e) :=
  h.andThen (by simp) (fun _ he => he) (by simp) (by simp)

/-- Effects that come to outcomes alike agree. -/
theorem agree_of_comesTo
    (h : ∀ s, ∃ P Q, m.ComesTo s P ∧ m'.ComesTo s Q ∧ ∀ o o', P o → Q o' → o.Alike same o') :
    Agree same m m' := by
  intro s
  obtain ⟨P, Q, ⟨o, n, ho, hm⟩, ⟨o', n', ho', hm'⟩, halike⟩ := h s
  constructor
  · intro r s₁ hr
    obtain ⟨rfl, rfl⟩ := (hm r s₁).1 hr
    exact ⟨_, _, (hm' _ _).2 ⟨rfl, rfl⟩, halike _ _ ho ho', rfl⟩
  · intro r s₁ hr
    obtain ⟨rfl, rfl⟩ := (hm' r s₁).1 hr
    exact ⟨_, _, (hm _ _).2 ⟨rfl, rfl⟩, halike _ _ ho ho', rfl⟩

end Effect

end Scheme
