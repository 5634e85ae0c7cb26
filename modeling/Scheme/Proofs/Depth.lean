import Mathlib
import Scheme.Proofs.Ending

/-!
# The bound on the depth

Nothing handles an error, so an evaluation that goes too deep ends with that error.  An evaluation
that ends otherwise has never met the bound, and a larger bound, or none, makes no difference to it.

* `Config.kind_of_ends`: a failure reaches the end with its kind;
* `Config.step_eq_or`: a larger bound makes a difference only where the smaller one is met;
* `Config.Ends.relax`: a run that does not meet its bound;
* `Interpreter.EvaluatesAll`: expressions evaluated one after another;
* `evaluatesAll_relax`: the main result.
-/

namespace Scheme

/-- A nested evaluation may start at the depth. -/
def Settings.Allows (s : Settings) (depth : Nat) : Prop := s.limit.any (· ≤ depth) = false

/-- The settings `t` allow every depth that the settings `s` allow. -/
def Settings.IsRelaxedBy (s t : Settings) : Prop := ∀ depth, s.Allows depth → t.Allows depth

@[simp] theorem EvalError.kind_named (name : String) (e : EvalError) :
    (e.named name).kind = e.kind := by
  unfold EvalError.named
  split_ifs <;> rfl

namespace Config

variable {s t : Settings} {c c' : Config} {o : Outcome} {e : EvalError}

/-! ### Nested evaluations -/

/-- A nested evaluation goes on one level deeper. -/
theorem enterStep_of_allows (h : s.Allows c.depth) (x : Value) (env : FrameId) :
    c.enterStep s x env = ⟨.eval x env, .leave :: c.tasks, c.depth + 1, c.store⟩ := by
  unfold Settings.Allows at h
  simp only [enterStep, Nat.lt_succ_iff, h]
  rfl

/-- One that is too deep fails there, above the task that comes back from it. -/
theorem enterStep_of_not_allows (h : ¬ s.Allows c.depth) (x : Value) (env : FrameId) :
    c.enterStep s x env =
      ⟨.fail (.depthExceeded x.write), .leave :: c.tasks, c.depth + 1, c.store⟩ := by
  rw [Settings.Allows, Bool.not_eq_false] at h
  simp only [enterStep, Nat.lt_succ_iff, h]
  rfl

/-! ### Failures -/

/-- A task hands an error on, under the same kind. -/
theorem control_unwind (c : Config) (task : Task) (e : EvalError) :
    ∃ e', (c.unwind task e).control = .fail e' ∧ e'.kind = e.kind := by
  cases task with
  | named name => exact ⟨e.named name, rfl, EvalError.kind_named name e⟩
  | _ => exact ⟨e, rfl, rfl⟩

/-- **A failure reaches the end with its kind.** -/
theorem kind_of_ends (h : Ends s c o c') (hc : c.control = .fail e) :
    ∃ e', o = .error e' ∧ e'.kind = e.kind := by
  induction h generalizing e with
  | @stopped c o hstop =>
    unfold outcome? at hstop
    rw [hc] at hstop
    cases htasks : c.tasks with
    | nil =>
      rw [htasks] at hstop
      cases hstop
      exact ⟨e, rfl, rfl⟩
    | cons task rest =>
      rw [htasks] at hstop
      cases hstop
  | @step c c' o hnone hrest ih =>
    -- the task on top hands the error on
    have hstep : ∃ e', (c.step s).control = .fail e' ∧ e'.kind = e.kind := by
      unfold step
      rw [hc]
      simp only
      cases htasks : c.tasks with
      | nil => exact ⟨e, hc, rfl⟩
      | cons task rest => exact control_unwind _ task e
    obtain ⟨e', hfail, hkind⟩ := hstep
    obtain ⟨e'', ho, hkind'⟩ := ih hfail
    exact ⟨e'', ho, hkind'.trans hkind⟩

/-! ### Relaxed settings -/

/-- **A step only differs under relaxed settings if it meets the bound.** -/
theorem step_eq_or (h : s.IsRelaxedBy t) (c : Config) : c.step t = c.step s ∨
    ∃ e, (c.step s).control = .fail e ∧ e.kind = .depthExceeded := by
  cases hc : c.control with
  | enter x env =>
    have hstep (r : Settings) : c.step r = c.enterStep r x env := by
      unfold step
      rw [hc]
    rw [hstep, hstep]
    by_cases hs : s.Allows c.depth
    · exact Or.inl ((enterStep_of_allows (h _ hs) x env).trans (enterStep_of_allows hs x env).symm)
    · rw [enterStep_of_not_allows hs]
      exact Or.inr ⟨.depthExceeded x.write, rfl, rfl⟩
  | _ =>
    refine Or.inl ?_
    unfold step
    rw [hc]

/-- **A run that does not meet its bound** ends in the same way under relaxed settings. -/
theorem Ends.relax (h : Ends s c o c') (hst : s.IsRelaxedBy t)
    (ho : ∀ e, o = .error e → e.kind ≠ .depthExceeded) : Ends t c o c' := by
  induction h with
  | stopped hstop => exact .stopped hstop
  | @step c c' o hnone hrest ih =>
    rcases step_eq_or hst c with heq | ⟨e, hfail, hkind⟩
    · refine .step hnone ?_
      rw [heq]
      exact ih ho
    · obtain ⟨e', he', hkind'⟩ := kind_of_ends hrest hfail
      exact absurd (hkind'.trans hkind) (ho e' he')

end Config

/-! ### Sequences of evaluations -/

/-- An expression to be evaluated: a written datum, or a value at hand. -/
inductive Expression where
  | written (d : Sexp)
  | value (x : Value)

namespace Interpreter

variable {i i' i'' : Interpreter} {o o' : Outcome} {os os' : List Outcome}

/-- The value that an expression is, and the interpreter that has it. -/
def express (i : Interpreter) : Expression → Value × Interpreter
  | .written d => i.intern d
  | .value x => (x, i)

/-- The expressions, evaluated in their frames one after another, all come to an end: with these
outcomes, and the last in this state. -/
inductive EvaluatesAll :
    Interpreter → List (Expression × FrameId) → List Outcome → Interpreter → Prop where
  | nil (i : Interpreter) : EvaluatesAll i [] [] i
  | cons {i i₁ i₂ : Interpreter} {x : Expression} {env : FrameId} {xs : List (Expression × FrameId)}
      {o : Outcome} {os : List Outcome}
      (hfirst : (i.express x).2.EvaluatesTo (i.express x).1 env o i₁)
      (hrest : EvaluatesAll i₁ xs os i₂) :
      EvaluatesAll i ((x, env) :: xs) (o :: os) i₂

theorem EvaluatesTo.unique {x : Value} {env : FrameId} (h : i.EvaluatesTo x env o i')
    (h' : i.EvaluatesTo x env o' i'') : o = o' ∧ i' = i'' := by
  obtain ⟨c, hends, rfl⟩ := evaluatesTo_iff.1 h
  obtain ⟨c', hends', rfl⟩ := evaluatesTo_iff.1 h'
  obtain ⟨rfl, rfl⟩ := hends.unique hends'
  exact ⟨rfl, rfl⟩

theorem EvaluatesAll.unique {xs : List (Expression × FrameId)} (h : EvaluatesAll i xs os i')
    (h' : EvaluatesAll i xs os' i'') : os = os' ∧ i' = i'' := by
  induction h generalizing os' i'' with
  | nil i =>
    cases h'
    exact ⟨rfl, rfl⟩
  | cons hfirst _ ih =>
    cases h' with
    | cons hfirst' hrest' =>
      obtain ⟨rfl, rfl⟩ := hfirst.unique hfirst'
      obtain ⟨rfl, rfl⟩ := ih hrest'
      exact ⟨rfl, rfl⟩

/-- The interpreter with other settings. -/
def withSettings (i : Interpreter) (settings : Settings) : Interpreter :=
  { i with settings := settings }

theorem settings_of_evaluatesTo {x : Value} {env : FrameId} (h : i.EvaluatesTo x env o i') :
    i'.settings = i.settings := by
  obtain ⟨c, -, rfl⟩ := evaluatesTo_iff.1 h
  rfl

theorem EvaluatesTo.relax {x : Value} {env : FrameId} {t : Settings} (h : i.EvaluatesTo x env o i')
    (hst : i.settings.IsRelaxedBy t) (ho : ∀ e, o = .error e → e.kind ≠ .depthExceeded) :
    (i.withSettings t).EvaluatesTo x env o (i'.withSettings t) := by
  obtain ⟨c, hends, rfl⟩ := evaluatesTo_iff.1 h
  exact evaluatesTo_iff.2 ⟨c, hends.relax hst ho, rfl⟩

/-- A sequence of evaluations, none of which meets the bound. -/
theorem EvaluatesAll.relax {xs : List (Expression × FrameId)} {t : Settings}
    (h : EvaluatesAll i xs os i') (hst : i.settings.IsRelaxedBy t)
    (hos : ∀ e, Outcome.error e ∈ os → e.kind ≠ .depthExceeded) :
    EvaluatesAll (i.withSettings t) xs os (i'.withSettings t) := by
  induction h with
  | nil i => exact .nil _
  | @cons i i₁ i₂ x env xs o os hfirst _ ih =>
    have hexpress : (i.withSettings t).express x =
        ((i.express x).1, (i.express x).2.withSettings t) := by
      cases x <;> rfl
    have hsettings : (i.express x).2.settings = i.settings := by
      cases x <;> rfl
    have hsettings₁ : i₁.settings = i.settings := (settings_of_evaluatesTo hfirst).trans hsettings
    refine .cons ?_
      (ih (by rw [hsettings₁]; exact hst) fun e he => hos e (List.mem_cons_of_mem _ he))
    rw [hexpress]
    refine hfirst.relax (by rw [hsettings]; exact hst) ?_
    rintro e rfl
    exact hos e List.mem_cons_self

end Interpreter

/-! ### Bounds -/

/-- The settings with a bound on the depth, or without one if it is not positive. -/
def Settings.ofBound (n : Int) : Settings := ⟨if 0 < n then some n.toNat else none⟩

theorem Interpreter.start_eq (n : Int) (recording : Bool) :
    Interpreter.start n recording = ⟨.ofBound n, Store.initial recording⟩ := rfl

/-- A bound that is not smaller, or none, relaxes a bound. -/
theorem Settings.isRelaxedBy_ofBound {n m : Int} (hn : 0 < n) (hm : n ≤ m ∨ m ≤ 0) :
    (Settings.ofBound n).IsRelaxedBy (.ofBound m) := by
  intro depth hdepth
  unfold Settings.Allows Settings.ofBound at *
  simp only [if_pos hn, Option.any_some, decide_eq_false_iff_not] at hdepth
  split_ifs with hpos
  · simp only [Option.any_some, decide_eq_false_iff_not]
    omega
  · rfl

/-- **A bound that no evaluation meets makes no difference.**  If expressions, evaluated one after
another from some store with a bound on the depth, all come to an end and none of them goes too
deep, then with every bound that is not smaller, and with none, they come to an end too, with the
same outcomes and in the same store. -/
theorem evaluatesAll_relax {n m : Int} (hn : 0 < n) (hm : n ≤ m ∨ m ≤ 0) {s : Store}
    {xs : List (Expression × FrameId)} {os : List Outcome} {i : Interpreter}
    (h : Interpreter.EvaluatesAll ⟨.ofBound n, s⟩ xs os i)
    (hos : ∀ e, Outcome.error e ∈ os → e.kind ≠ .depthExceeded) (os' : List Outcome)
    (i' : Interpreter) :
    Interpreter.EvaluatesAll ⟨.ofBound m, s⟩ xs os' i' ↔ os' = os ∧ i' = ⟨.ofBound m, i.store⟩ := by
  have hrelaxed := h.relax (Settings.isRelaxedBy_ofBound hn hm) hos
  constructor
  · intro h'
    exact Interpreter.EvaluatesAll.unique h' hrelaxed
  · rintro ⟨rfl, rfl⟩
    exact hrelaxed

/-- The outcome is a value. -/
def Outcome.isValue : Outcome → Bool
  | .value _ => true
  | _ => false

/-- The kind of the error that the outcome is. -/
def Outcome.errorKind? : Outcome → Option ErrorKind
  | .error e => some e.kind
  | _ => none

/-- The bound two is enough for `(define x #t)` and for `(car x)`, which fails since `x` is no pair.
Without a bound they come to the same end. -/
theorem evaluatesAll_relax_car :
    let define : Sexp := .ofList [.symbol "define", .symbol "x", .boolean true] .nil
    let car : Sexp := .ofList [.symbol "car", .symbol "x"] .nil
    let xs : List (Expression × FrameId) :=
      [(.written define, Store.global), (.written car, Store.global)]
    ∃ o e i, e.kind = .typeMismatch ∧
      (Interpreter.start 2 false).EvaluatesAll xs [o, .error e] i ∧
      (Interpreter.start 0 false).EvaluatesAll xs [o, .error e] ⟨.ofBound 0, i.store⟩ := by
  intro define car xs
  let first := (Interpreter.start 2 false).evalSexp 20 define Store.global
  let second := first.2.evalSexp 20 car Store.global
  obtain ⟨v, hv⟩ : ∃ v, first.1 = .value v := by
    have hvalue : first.1.isValue = true := by decide +kernel
    unfold Outcome.isValue at hvalue
    split at hvalue
    · exact ⟨_, ‹_›⟩
    · cases hvalue
  obtain ⟨e, he, hkind⟩ : ∃ e, second.1 = .error e ∧ e.kind = .typeMismatch := by
    have herror : second.1.errorKind? = some .typeMismatch := by decide +kernel
    unfold Outcome.errorKind? at herror
    split at herror
    · exact ⟨_, ‹_›, Option.some.inj herror⟩
    · cases herror
  have hall : (Interpreter.start 2 false).EvaluatesAll xs [.value v, .error e] second.2 :=
    .cons ⟨20, by rw [← hv]; rfl, by simp⟩ (.cons ⟨20, by rw [← he]; rfl, by simp⟩ (.nil _))
  have hdepth : ∀ e', Outcome.error e' ∈ [.value v, .error e] → e'.kind ≠ .depthExceeded := by
    intro e' hmem
    obtain rfl : e' = e := by simpa using hmem
    rw [hkind]
    decide
  refine ⟨.value v, e, second.2, hkind, hall, ?_⟩
  rw [Interpreter.start_eq] at hall ⊢
  exact (evaluatesAll_relax (by decide) (Or.inr le_rfl) hall hdepth _ _).2 ⟨rfl, rfl⟩

end Scheme
