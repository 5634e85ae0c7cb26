import Mathlib
import Scheme.Eval.Interpreter

/-!
# Runs that end

The fuel of a run only decides whether the run comes to its end, so what a run leads to can be
stated without it.

* `Config.Ends`: the machine stops, with an outcome and in a configuration;
* `Config.Ends.unique`: there is one way to end;
* `Config.ends_iff_run`: a run with enough fuel finds it;
* `Interpreter.EvaluatesTo`, `Interpreter.AppliesTo`: evaluations and calls that end.
-/

namespace Scheme

namespace Config

/-- The machine stops, with this outcome and in this configuration. -/
inductive Ends (settings : Settings) : Config → Outcome → Config → Prop where
  | stopped {c : Config} {o : Outcome} (h : c.outcome? = some o) : Ends settings c o c
  | step {c c' : Config} {o : Outcome} (h : c.outcome? = none)
      (hrest : Ends settings (c.step settings) o c') : Ends settings c o c'

variable {settings : Settings} {c c' c'' : Config} {o o' : Outcome}

theorem ne_unfinished_of_outcome (h : c.outcome? = some o) : o ≠ .unfinished := by
  rintro rfl
  unfold outcome? at h
  split at h <;> cases h

/-- The machine has stopped where it ends. -/
theorem Ends.outcome (h : Ends settings c o c') : c'.outcome? = some o := by
  induction h with
  | stopped hstop => exact hstop
  | step _ _ ih => exact ih

/-- **There is one way to end.** -/
theorem Ends.unique (h : Ends settings c o c') (h' : Ends settings c o' c'') :
    o = o' ∧ c' = c'' := by
  induction h with
  | stopped hstop =>
    cases h' with
    | stopped hstop' =>
      rw [hstop] at hstop'
      exact ⟨Option.some.inj hstop', rfl⟩
    | step hnone _ =>
      rw [hstop] at hnone
      cases hnone
  | step hnone _ ih =>
    cases h' with
    | stopped hstop' =>
      rw [hnone] at hstop'
      cases hstop'
    | step _ hrest' => exact ih hrest'

/-- A step does not change how the machine ends. -/
theorem ends_step_iff : Ends settings (c.step settings) o c' ↔ Ends settings c o c' := by
  cases houtcome : c.outcome? with
  | some r => rw [step_of_outcome houtcome]
  | none =>
    constructor
    · intro h
      exact .step houtcome h
    · intro h
      cases h with
      | stopped hstop =>
        rw [houtcome] at hstop
        cases hstop
      | step _ hrest => exact hrest

theorem ends_of_outcome (h : c.outcome? = some o) : Ends settings c o' c' ↔ o' = o ∧ c' = c := by
  constructor
  · intro hends
    exact hends.unique (.stopped h)
  · rintro ⟨rfl, rfl⟩
    exact .stopped h

/-- **A run with enough fuel finds the end.** -/
theorem ends_iff_run : Ends settings c o c' ↔
    ∃ fuel, c.run settings fuel = (o, c') ∧ o ≠ .unfinished := by
  constructor
  · intro h
    induction h with
    | @stopped c o hstop =>
      exact ⟨0, run_of_outcome hstop 0, ne_unfinished_of_outcome hstop⟩
    | step hnone _ ih =>
      obtain ⟨fuel, hrun, hne⟩ := ih
      exact ⟨fuel + 1, by rw [run_succ hnone, hrun], hne⟩
  · rintro ⟨fuel, hrun, hne⟩
    induction fuel generalizing c with
    | zero =>
      rw [run] at hrun
      obtain ⟨ho, rfl⟩ := Prod.mk.inj hrun
      cases houtcome : c.outcome? with
      | some r =>
        rw [houtcome] at ho
        cases ho
        exact .stopped houtcome
      | none =>
        rw [houtcome] at ho
        exact absurd ho.symm hne
    | succ fuel ih =>
      cases houtcome : c.outcome? with
      | some r =>
        rw [run_of_outcome houtcome] at hrun
        cases hrun
        exact .stopped houtcome
      | none =>
        rw [run_succ houtcome] at hrun
        exact .step houtcome (ih hrun)

end Config

/-! ### Interpreters -/

namespace Interpreter

variable {i i' : Interpreter} {o : Outcome}

/-- The evaluation of an expression in a frame ends, with this outcome and in this state. -/
def EvaluatesTo (i : Interpreter) (x : Value) (env : FrameId) (o : Outcome) (i' : Interpreter) :
    Prop :=
  ∃ fuel, i.evalIn fuel x env = (o, i') ∧ o ≠ .unfinished

/-- The call of a procedure ends, with this outcome and in this state. -/
def AppliesTo (i : Interpreter) (f : Value) (args : List Value) (o : Outcome) (i' : Interpreter) :
    Prop :=
  ∃ fuel, i.apply fuel f args = (o, i') ∧ o ≠ .unfinished

theorem ends_iff_runFrom {control : Control} {tasks : List Task} :
    (∃ fuel, i.runFrom fuel control tasks = (o, i') ∧ o ≠ .unfinished) ↔
      ∃ c, Config.Ends i.settings ⟨control, tasks, 0, i.store⟩ o c ∧
        i' = ⟨i.settings, c.store⟩ := by
  constructor
  · rintro ⟨fuel, hrun, hne⟩
    obtain ⟨rfl, rfl⟩ := Prod.mk.inj hrun
    exact ⟨_, Config.ends_iff_run.2 ⟨fuel, rfl, hne⟩, rfl⟩
  · rintro ⟨c, hends, rfl⟩
    obtain ⟨fuel, hrun, hne⟩ := Config.ends_iff_run.1 hends
    refine ⟨fuel, ?_, hne⟩
    rw [runFrom]
    simp only [hrun]

theorem evaluatesTo_iff {x : Value} {env : FrameId} : i.EvaluatesTo x env o i' ↔
    ∃ c, Config.Ends i.settings ⟨.enter x env, [.report x], 0, i.store⟩ o c ∧
      i' = ⟨i.settings, c.store⟩ :=
  ends_iff_runFrom

theorem appliesTo_iff {f : Value} {args : List Value} : i.AppliesTo f args o i' ↔
    ∃ c, Config.Ends i.settings ⟨.apply f args, [], 0, i.store⟩ o c ∧ i' = ⟨i.settings, c.store⟩ :=
  ends_iff_runFrom

end Interpreter

end Scheme
