import Mathlib
import Scheme.Proofs.Safety

/-!
# Frames form a forest

A step of the machine leaves the frames alone, binds one name in one of them, or adds one frame that
extends an existing one.  So no binding is ever lost and no frame gets another parent; the frames
form a forest, and the walk outward from a frame ends.  In particular a name that is bound when an
assignment starts is still bound when its value is there, whatever was evaluated in between.

* `FrameChange`: what one step can do to the frames, with one lemma for each function of the
  machine;
* `Store.LooksFor`: the walk outward, as the frames are linked;
* `Store.Sound.looksFor`: the walk ends where `Store.lookFor` says;
* `frames_kept`: the main result.
-/

namespace Scheme

/-! ### What a step does to the frames -/

/-- What a step can do to the frames: nothing, one binding, or one new frame on an existing one. -/
inductive FrameChange (before after : Array Frame) : Prop where
  | none (h : after = before)
  | bind (env : FrameId) (name : String) (v : Value)
      (h : after = before.modify env fun f => { f with bindings := Bindings.set name v f.bindings })
  | extend (parent : FrameId) (bindings : Bindings) (hparent : parent < before.size)
      (h : after = before.push ⟨some parent, bindings⟩)

/-- A new frame extends a frame that was there before. -/
theorem FrameChange.parent_of_new {before after : Array Frame} (h : FrameChange before after)
    {env : FrameId} {f : Frame} (hf : after[env]? = some f) (hnew : before.size ≤ env) :
    ∃ p, f.parent = some p ∧ p < before.size := by
  have hlt := (Array.getElem?_eq_some_iff.1 hf).1
  cases h with
  | none h =>
    subst h
    omega
  | bind env' name v h =>
    subst h
    rw [Array.size_modify] at hlt
    omega
  | extend parent bindings hparent h =>
    subst h
    rw [Array.size_push] at hlt
    obtain rfl : env = before.size := Nat.le_antisymm (Nat.lt_succ_iff.1 hlt) hnew
    rw [Array.getElem?_push_size] at hf
    cases hf
    exact ⟨parent, rfl, hparent⟩

namespace Config

section Steps

variable {c : Config}

theorem store_throw (failure : Failure) : (c.throw failure).store = c.store := by
  cases failure <;> rfl

theorem store_evalForms (forms : List Value) (env : FrameId) :
    (c.evalForms forms env).store = c.store := by
  unfold evalForms
  split <;> rfl

theorem store_evalBody (forms : List Value) (env : FrameId) :
    (c.evalBody forms env).store = c.store := by
  unfold evalBody
  split <;> rfl

theorem store_evalOperands (f : Value) (before after : List Value) (env : FrameId) :
    (c.evalOperands f before after env).store = c.store := by
  unfold evalOperands
  split <;> rfl

theorem frameChange_callPrimitive (p : Primitive) (args : List Value) :
    FrameChange c.store.frames (c.callPrimitive p args).store.frames := by
  unfold callPrimitive
  split
  · exact .none (by rw [store_throw])
  all_goals exact .none rfl

/-- A call of a closure adds the frame of its arguments, on the frame that the closure was made
in. -/
theorem frameChange_callClosure (h : c.store.Sound) (id : Nat) (name : String) (args : List Value)
    {body : Config → List Value → FrameId → Config}
    (hbody : ∀ (c : Config) forms env, (body c forms env).store = c.store) :
    FrameChange c.store.frames (c.callClosure id name args body).store.frames := by
  unfold callClosure
  split
  · exact .none rfl
  · rename_i closure hclosure
    split
    · exact .none (by rw [store_throw])
    · rename_i b _
      split
      · exact .none rfl
      · rw [hbody]
        exact .extend closure.frame b (h.closure id closure hclosure).frame rfl

theorem frameChange_call (h : c.store.Sound) (f : Value) (args : List Value)
    {body : Config → List Value → FrameId → Config}
    (hbody : ∀ (c : Config) forms env, (body c forms env).store = c.store)
    {otherwise : Config → Config} (hotherwise : (otherwise c).store = c.store) :
    FrameChange c.store.frames (c.call f args body otherwise).store.frames := by
  unfold call
  split
  · exact frameChange_callPrimitive _ args
  · exact frameChange_callClosure h _ _ args hbody
  · exact .none (by rw [hotherwise])

theorem frameChange_bind (name : String) (env : FrameId) (v : Value) :
    FrameChange c.store.frames (c.bind name env v).store.frames :=
  .bind env name v rfl

theorem frameChange_makeClosure (form : Value) (name : String) (params : Value) (body : List Value)
    (env : FrameId) {use : Config → Value → Config}
    (huse : ∀ (c : Config) v, FrameChange c.store.frames (use c v).store.frames) :
    FrameChange c.store.frames (c.makeClosure form name params body env use).store.frames := by
  unfold makeClosure
  split
  · rename_i formals x rest hformals
    exact huse (c.mapStore fun s => s.addClosure ⟨params, x :: rest, env⟩) _
  · exact .none rfl

theorem frameChange_evalDefine (form : Value) (operands : List Value) (env : FrameId) :
    FrameChange c.store.frames (c.evalDefine form operands env).store.frames := by
  unfold evalDefine
  split
  · exact frameChange_bind _ env .void
  · exact .none rfl
  · rename_i name params body
    exact frameChange_makeClosure form name params body env fun c v => frameChange_bind name env v
  · exact .none rfl

theorem frameChange_evalKeyword (k : Keyword) (form : Value) (operands : List Value)
    (env : FrameId) :
    FrameChange c.store.frames (c.evalKeyword k form operands env).store.frames := by
  unfold evalKeyword
  split
  · exact .none rfl
  · exact .none rfl
  · exact .none rfl
  · exact .none rfl
  · exact .none (by rw [store_evalForms])
  · exact frameChange_makeClosure form "" _ _ env fun c v => .none rfl
  · exact frameChange_evalDefine form _ env
  · split <;> exact .none rfl
  · exact .none rfl
  · exact .none rfl

theorem frameChange_evalForm (form head tail : Value) (env : FrameId) :
    FrameChange c.store.frames (c.evalForm form head tail env).store.frames := by
  unfold evalForm
  split
  · exact .none rfl
  · split
    · exact .none rfl
    · exact frameChange_evalKeyword _ form _ env

theorem frameChange_evalStep (x : Value) (env : FrameId) :
    FrameChange c.store.frames (c.evalStep x env).store.frames := by
  unfold evalStep
  split
  · split
    · exact .none rfl
    · split <;> exact .none rfl
  · exact .none rfl
  · exact frameChange_evalForm _ _ _ env
  · exact .none rfl

theorem frameChange_expandStep (x : Value) (level : Nat) (env : FrameId) :
    FrameChange c.store.frames (c.expandStep x level env).store.frames := by
  have hpair (car cdr : Value) : (c.expandPair car cdr level env).store = c.store := by
    unfold expandPair
    split
    · split_ifs <;> rfl
    · rfl
  unfold expandStep
  split
  · split
    · split_ifs <;> exact .none rfl
    · exact .none rfl
    · exact .none (by rw [hpair])
  · exact .none rfl
  · exact .none rfl

theorem frameChange_resume (task : Task) (v : Value) :
    FrameChange c.store.frames (c.resume task v).store.frames := by
  cases task with
  | operator form operands env =>
    rw [resume]
    split_ifs
    · split
      · exact .none (by rw [store_evalOperands])
      · exact .none rfl
    · exact .none rfl
  | operand f before after env => exact .none (by rw [resume, store_evalOperands])
  | branch yes no env =>
    simp only [resume]
    split_ifs
    · exact .none rfl
    · split <;> exact .none rfl
  | forms rest env => exact .none (by rw [resume, store_evalForms])
  | body rest env =>
    rw [resume]
    split_ifs
    · exact .none rfl
    · exact .none (by rw [store_evalBody])
  | define name env => exact frameChange_bind name env v
  | assign name env =>
    rw [resume]
    split
    · exact .bind _ name v rfl
    · exact .none rfl
  | gather | spliceInto items =>
    rw [resume]
    split <;> exact .none rfl
  | _ => exact .none rfl

theorem frameChange_unwind (task : Task) (e : EvalError) :
    FrameChange c.store.frames (c.unwind task e).store.frames := by
  unfold unwind
  split <;> exact .none rfl

theorem frameChange_enterStep (settings : Settings) (x : Value) (env : FrameId) :
    FrameChange c.store.frames (c.enterStep settings x env).store.frames := by
  unfold enterStep
  dsimp only
  split_ifs <;> exact .none rfl

/-- **A step changes at most one binding or adds one frame**, which extends an existing one. -/
theorem frameChange_step (h : c.store.Sound) (settings : Settings) :
    FrameChange c.store.frames (c.step settings).store.frames := by
  unfold step
  split
  · exact frameChange_enterStep settings _ _
  · exact frameChange_evalStep _ _
  · exact frameChange_expandStep _ _ _
  · exact frameChange_call h _ _ (fun c forms env => store_evalForms forms env) (store_throw _)
  · exact frameChange_call h _ _ (fun c forms env => store_evalBody forms env) rfl
  · rename_i v hc
    split
    · exact .none rfl
    · rename_i task rest htasks
      exact frameChange_resume (c := c.popTask rest) task v
  · rename_i e hc
    split
    · exact .none rfl
    · rename_i task rest htasks
      exact frameChange_unwind (c := c.popTask rest) task e
  · exact .none rfl

end Steps

end Config

/-! ### The walk outward -/

/-- The walk from a frame outward along the parents, up to the first frame that binds a name, and
where it ends. -/
inductive Store.LooksFor (s : Store) (name : String) : FrameId → Option FrameId → Prop where
  | found {env f} (hf : s.frames[env]? = some f)
      (hname : (Bindings.get? f.bindings name).isSome = true) :
      LooksFor s name env (some env)
  | outward {env f p r} (hf : s.frames[env]? = some f)
      (hname : Bindings.get? f.bindings name = none)
      (hp : f.parent = some p) (h : LooksFor s name p r) : LooksFor s name env r
  | missing {env f} (hf : s.frames[env]? = some f) (hname : Bindings.get? f.bindings name = none)
      (hp : f.parent = none) : LooksFor s name env none

namespace Store

variable {s : Store}

/-- No frame is an ancestor of itself: the way to the parents is well-founded. -/
theorem Sound.wellFounded_parent (h : s.Sound) :
    WellFounded fun p env : FrameId => s.parent? env = some p := by
  refine Subrelation.wf (r := (· < ·)) ?_ Nat.lt_wfRel.wf
  intro p env hp
  obtain ⟨f, hf, hparent⟩ := Option.bind_eq_some_iff.1 hp
  exact h.parent env f hf p hparent

/-- The walk outward ends where `lookFor` says.  Parents have smaller numbers than their frames, so
the comparison of numbers in `find` never cuts the walk short. -/
theorem Sound.looksFor (h : s.Sound) {env : FrameId} (henv : env < s.frames.size) (name : String) :
    s.LooksFor name env (s.lookFor env name) := by
  induction env using Nat.strongRecOn with
  | _ env ih =>
    obtain ⟨f, hf⟩ : ∃ f, s.frames[env]? = some f := ⟨_, Array.getElem?_eq_getElem henv⟩
    unfold lookFor
    rw [find, hf]
    simp only
    cases hname : Bindings.get? f.bindings name with
    | some v => exact .found hf (by rw [hname]; rfl)
    | none =>
      cases hp : f.parent with
      | none => exact .missing hf hname hp
      | some p =>
        have hlt : p < env := h.parent env f hf p hp
        simp only [if_pos hlt]
        exact .outward hf hname hp (ih p hlt (hlt.trans henv))

end Store

/-! ### Assignments -/

/-- The value of an assignment finds its name bound. -/
theorem Config.Sound.step_assign {origin : Store} {c : Config} (h : c.Sound origin) {name : String}
    {env : FrameId} {rest : List Task} {v : Value} (hc : c.control = .ret v)
    (htasks : c.tasks = .assign name env :: rest) (settings : Settings) :
    ∃ s, c.store.assign env name v = .ok s ∧ c.step settings = ⟨.ret .void, rest, c.depth, s⟩ := by
  have htask : Task.Sound c.store (.assign name env) :=
    h.tasks _ (by rw [htasks]; exact List.mem_cons_self)
  obtain ⟨frame, hframe⟩ := Option.isSome_iff_exists.1 htask.2
  refine ⟨c.store.define frame name v, ?_, ?_⟩
  · unfold Store.assign
    rw [hframe]
  · unfold Config.step
    rw [hc, htasks]
    simp only [Config.resume, Config.popTask, hframe]
    rfl

/-- **Frames are kept.**  In every configuration that an evaluation or a call in a reachable state
passes through, no frame has lost a binding or got another parent since the start, nor does it in
the next step; a frame that the next step adds extends an existing one; the frames form a forest, on
which the walk outward ends; and an assignment whose value is there finds its name bound. -/
theorem frames_kept {i : Interpreter} {vs : List Value} (h : Reachable i vs) {c : Config}
    (hc : Visited i vs c) :
    i.store.Grows c.store ∧ c.store.Grows (c.step i.settings).store ∧
      (∀ (env : FrameId) f, (c.step i.settings).store.frames[env]? = some f →
        c.store.frames.size ≤ env →
        ∃ p, f.parent = some p ∧ p < c.store.frames.size) ∧
      (WellFounded fun p env : FrameId => c.store.parent? env = some p) ∧
      (∀ env name, env < c.store.frames.size → c.store.LooksFor name env
        (c.store.lookFor env name)) ∧
      ∀ name env rest v, c.control = .ret v → c.tasks = .assign name env :: rest →
        ∃ s, c.store.assign env name v = .ok s ∧
          c.step i.settings = ⟨.ret .void, rest, c.depth, s⟩ := by
  have hsound := hc.sound h
  have hstep : (c.step i.settings).Sound c.store :=
    Config.Sound.step ⟨⟨.refl _, hsound.store, hsound.tasks⟩, hsound.control⟩ i.settings
  refine ⟨hsound.grows, hstep.grows, fun env f hf hnew => ?_, hsound.store.wellFounded_parent,
    fun env name henv => hsound.store.looksFor henv name, fun name env rest v hcontrol htasks => ?_⟩
  · exact (Config.frameChange_step hsound.store i.settings).parent_of_new hf hnew
  · exact hsound.step_assign hcontrol htasks i.settings

/-- A value is about to be assigned to the name. -/
def Config.isAssigning (c : Config) (name : String) (env : FrameId) : Bool :=
  match c.control, c.tasks with
  | .ret _, .assign other frame :: _ => decide (other = name ∧ frame = env)
  | _, _ => false

/-- In `((lambda (y) (set! y (begin (define z 1) 5)) y) 1)` the value of the assignment comes after
a definition in the same frame, and the assignment succeeds. -/
theorem frames_kept_assigned :
    let e : Sexp := .ofList [.symbol "begin",
      .ofList [.symbol "define", .symbol "z", .number (.ofInt 1)] .nil, .number (.ofInt 5)] .nil
    let set : Sexp := .ofList [.symbol "set!", .symbol "y", e] .nil
    let lambda : Sexp :=
      .ofList [.symbol "lambda", .ofList [.symbol "y"] .nil, set, .symbol "y"] .nil
    let d : Sexp := .ofList [lambda, .number (.ofInt 1)] .nil
    let x := ((Interpreter.start 0 false).intern d).1
    let i := ((Interpreter.start 0 false).intern d).2
    let c := (Config.step i.settings)^[25] ⟨.enter x Store.global, [.report x], 0, i.store⟩
    c.store.frames.size = 2 ∧ ∃ v rest, c.control = .ret v ∧ c.tasks = .assign "y" 1 :: rest ∧
      ∃ s, c.store.assign 1 "y" v = .ok s ∧ c.step i.settings = ⟨.ret .void, rest, c.depth, s⟩ := by
  intro e set lambda d x i c
  have hreachable : Reachable i [x] := .read (.start 0 false) d
  have hx : MadeOf [x] x := fun o ho => ⟨x, List.mem_cons_self, ho⟩
  have hvisited : Visited i [x] c := (Visited.enter hx Nat.zero_lt_one).iterate 25
  have hsize : c.store.frames.size = 2 := by decide +kernel
  have hmoment : c.isAssigning "y" 1 = true := by decide +kernel
  clear_value c
  unfold Config.isAssigning at hmoment
  split at hmoment
  · rename_i v name env rest hcontrol htasks
    obtain ⟨rfl, rfl⟩ := of_decide_eq_true hmoment
    exact ⟨hsize, v, rest, hcontrol, htasks,
      (frames_kept hreachable hvisited).2.2.2.2.2 "y" 1 rest v hcontrol htasks⟩
  · cases hmoment

end Scheme
