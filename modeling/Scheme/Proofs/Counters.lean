import Mathlib
import Scheme.Proofs.Recursion

/-!
# Counters

A procedure that is made in a call keeps the frame of that call, and no other procedure reaches that
frame.  So counters that one procedure makes count their own calls only, in whatever order they are
called.

* `counterMaker`, `counterDefinition`, `counterCall`: the expressions;
* `Store.HasGlobal`: what the global frame binds;
* `Store.InCounter.gives_increment`: what a call does to the frame of its counter;
* `Store.KeepsCounters`: the counters, each with its closure and its frame;
* `Store.KeepsCounters.exists_gives`, `Store.KeepsCounters.exists_evaluatesAll`: one call, and all
  of them;
* `Store.MakesCounters.exists_gives`, `Store.MakesCounters.exists_evaluatesAll`: the same for
  definitions;
* `counters_apart`: the main result.
-/

namespace Scheme

/-! ### Expressions -/

/-- `(define (make-counter) (define n 0) (lambda () (set! n (+ n 1)) n))` -/
def counterMaker : Sexp :=
  .ofList [.symbol "define", .ofList [.symbol "make-counter"] .nil,
    .ofList [.symbol "define", .symbol "n", .number (.ofInt 0)] .nil,
    .ofList [.symbol "lambda", .nil,
      .ofList [.symbol "set!", .symbol "n",
        .ofList [.symbol "+", .symbol "n", .number (.ofInt 1)] .nil] .nil, .symbol "n"] .nil] .nil

/-- `(define name (make-counter))` -/
def counterDefinition (name : String) : Sexp :=
  .ofList [.symbol "define", .symbol name, .ofList [.symbol "make-counter"] .nil] .nil

/-- `(name)` -/
def counterCall (name : String) : Sexp := .ofList [.symbol name] .nil

/-- Written data, to be evaluated in the global frame. -/
def atTop (ds : List Sexp) : List (Expression × FrameId) :=
  ds.map fun d => (.written d, Store.global)

/-- The forms of the body of `make-counter`, with the parts of the second. -/
structure IsMaker (start make increment sum : Value) : Prop where
  start : start.IsForm "define" [.symbol "n", .number (.ofInt 0)]
  make : make.IsForm "lambda" [.nil, increment, .symbol "n"]
  increment : increment.IsForm "set!" [.symbol "n", sum]
  sum : sum.IsForm "+" [.symbol "n", .number (.ofInt 1)]

/-- The procedure that is made in a call of `make-counter` with the frame `home`. -/
def counterClosure (increment : Value) (home : FrameId) : Closure :=
  ⟨.nil, [increment, .symbol "n"], home⟩

/-- The frame of such a call, when the counter has counted to `n`. -/
def counterFrame (n : Nat) : Frame := ⟨some Store.global, [("n", .number (.ofInt n))]⟩

/-! ### The global frame -/

/-- The global frame has the bindings `b`, the initial ones among them. -/
structure Store.HasGlobal (s : Store) (b : Bindings) : Prop where
  global : s.frames[Store.global]? = some ⟨none, b⟩
  initial : ∀ name v, Bindings.get? Store.initialBindings name = some v →
    Bindings.get? b name = some v

namespace Store

variable {s : Store} {b own : Bindings} {name : String} {v : Value} {env : FrameId}

theorem HasGlobal.get?_keyword (h : s.HasGlobal b) (k : Keyword) :
    Bindings.get? b k.name = some (.object (.keyword k)) :=
  h.initial _ _ (get?_initialBindings_keyword k)

theorem HasGlobal.get?_primitive (h : s.HasGlobal b) (p : Primitive) :
    Bindings.get? b p.name = some (.object (.primitive p)) :=
  h.initial _ _ (get?_initialBindings_primitive p)

theorem HasGlobal.find (h : s.HasGlobal b) (hb : Bindings.get? b name = some v) :
    s.find Store.global name = some (Store.global, v) :=
  find_here h.global hb

/-- The bindings are found from a frame on the global one. -/
theorem HasGlobal.find_from (h : s.HasGlobal b)
    (hframe : s.frames[env]? = some ⟨some Store.global, own⟩) (hpos : Store.global < env)
    (hown : Bindings.get? own name = none) (hb : Bindings.get? b name = some v) :
    s.find env name = some (Store.global, v) :=
  (find_outward hframe hown hpos).trans (h.find hb)

/-- A definition in another frame. -/
theorem HasGlobal.define_of_ne (h : s.HasGlobal b) (henv : env ≠ Store.global) (name : String)
    (v : Value) :
    (s.define env name v).HasGlobal b :=
  ⟨(frames_define_of_ne henv name v).trans h.global, h.initial⟩

/-- The definition of a new name. -/
theorem HasGlobal.define (h : s.HasGlobal b) (hname : Bindings.get? b name = none) (v : Value) :
    (s.define Store.global name v).HasGlobal (Bindings.set name v b) :=
  ⟨frames_define h.global name v,
    fun other w hw => Bindings.get?_set_of_new hname (h.initial other w hw) v⟩

end Store

/-! ### The call of a counter -/

/-- The frame `env` of a call extends the frame `home` of a counter, which has counted to `n`. -/
structure Store.InCounter (s : Store) (b : Bindings) (home env : FrameId) (n : Nat) : Prop
    extends s.HasGlobal b where
  own : s.frames[home]? = some (counterFrame n)
  call : s.frames[env]? = some ⟨some home, []⟩
  pos : Store.global < home
  lt : home < env

section Call

open Config

variable {settings : Settings} {depth n : Nat} {s : Store} {b : Bindings} {home env : FrameId}
    {name : String}
variable {start make increment sum v : Value}

namespace Store.InCounter

theorem tick (h : s.InCounter b home env n) : s.tick.InCounter b home env n :=
  ⟨⟨h.global, h.initial⟩, h.own, h.call, h.pos, h.lt⟩

/-- The count is found in the frame of the counter. -/
theorem find_count (h : s.InCounter b home env n) :
    s.find env "n" = some (home, .number (.ofInt n)) :=
  (find_outward h.call rfl h.lt).trans (find_here h.own rfl)

/-- Other names are found in the global frame. -/
theorem find_other (h : s.InCounter b home env n) (hname : name ≠ "n")
    (hb : Bindings.get? b name = some v) :
    s.find env name = some (Store.global, v) := by
  have hcount : Bindings.get? [("n", .number (.ofInt n))] name = none := by
    rw [Bindings.get?_cons, if_neg hname]
    rfl
  exact (find_outward h.call rfl h.lt).trans (h.find_from h.own h.pos hcount hb)

/-- A change of the count. -/
theorem define (h : s.InCounter b home env n) (m : Nat) :
    (s.define home "n" (.number (.ofInt m))).InCounter b home env m :=
  ⟨h.define_of_ne h.pos.ne' _ _, frames_define h.own _ _,
    (frames_define_of_ne h.lt.ne _ _).trans h.call,
    h.pos, h.lt⟩

theorem gives_sum (h : s.InCounter b home env n)
    (hsum : sum.IsForm "+" [.symbol "n", .number (.ofInt 1)])
    (hdepth : settings.Allows (depth + 1)) :
    Gives settings (.enter sum env) depth s (.number (.ofInt (n + 1 : Nat))) s.tick := by
  have hadd : s.find env "+" = some (Store.global, .object (.primitive .add)) :=
    h.find_other (by decide) (h.get?_primitive .add)
  have hargs : GivesAll settings env (depth + 1) s [.symbol "n", .number (.ofInt 1)]
      [.number (.ofInt n), .number (.ofInt 1)] s :=
    .cons (gives_enter_symbol hdepth h.find_count rfl)
      (.cons (gives_enter_number hdepth _) (.nil s))
  have hgives := gives_primitive hsum hadd hdepth hargs (Primitive.run_add s.clock n 1)
  exact hgives.enter (hdepth.mono (Nat.le_succ depth))

/-- **The assignment** changes the frame of the counter. -/
theorem gives_increment (h : s.InCounter b home env n) (hmaker : IsMaker start make increment sum)
    (hdepth : settings.Allows (depth + 2)) :
    Gives settings (.enter increment env) depth s .void
      (s.tick.define home "n" (.number (.ofInt (n + 1 : Nat)))) := by
  have hassign : s.find env "set!" = some (Store.global, .object (.keyword .assign)) :=
    h.find_other (by decide) (h.get?_keyword .assign)
  have hgives := gives_assign hmaker.increment hassign h.find_count (h.gives_sum hmaker.sum hdepth)
    h.tick.find_count
  exact hgives.enter (hdepth.mono (by omega))

end Store.InCounter

end Call

/-! ### The call of `make-counter` -/

section Make

open Config

variable {settings : Settings} {depth n : Nat} {s : Store} {b : Bindings} {env : FrameId}
variable {start make increment sum : Value}

/-- The first form defines the count. -/
theorem Store.HasGlobal.gives_start (h : s.HasGlobal b) (hmaker : IsMaker start make increment sum)
    (hframe : s.frames[env]? = some ⟨some Store.global, []⟩) (hpos : Store.global < env)
    (hdepth : settings.Allows (depth + 1)) :
    Gives settings (.enter start env) depth s .void
      ((s.record (.define "n")).define env "n" (.number (.ofInt 0))) := by
  have hdefine := h.find_from hframe hpos rfl (h.get?_keyword .define)
  have hgives := gives_defineValue hmaker.start hdefine (gives_enter_number hdepth (.ofInt 0))
  exact hgives.enter (hdepth.mono (Nat.le_succ depth))

/-- The second form makes the counter. -/
theorem Store.HasGlobal.gives_make (h : s.HasGlobal b) (hmaker : IsMaker start make increment sum)
    (hframe : s.frames[env]? = some (counterFrame n)) (hpos : Store.global < env) :
    Gives settings (.eval make env) depth s (.object (.closure s.nextClosure ""))
      (s.addClosure (counterClosure increment env)) := by
  have hlambda := h.find_from hframe hpos rfl (h.get?_keyword .lambda)
  exact gives_lambda hmaker.make hlambda rfl (List.cons_ne_nil _ _)

end Make

/-! ### Counters -/

/-- The global bindings `b` bind each of the names to a counter.  The counters have different
frames, and each has its count in its own. -/
structure Store.KeepsCounters (s : Store) (increment : Value) (b : Bindings)
    (frame : String → FrameId) (names : List String) (count : String → Nat) :
    Prop extends s.HasGlobal b where
  closure : ∀ name ∈ names, ∃ id, Bindings.get? b name = some (.object (.closure id "")) ∧
    s.closures[id]? = some (counterClosure increment (frame name))
  own : ∀ name ∈ names, s.frames[frame name]? = some (counterFrame (count name))
  pos : ∀ name ∈ names, Store.global < frame name
  apart : Set.InjOn frame {name | name ∈ names}

section Counters

open Config

variable {settings : Settings} {s : Store} {b : Bindings} {frame : String → FrameId}
    {names : List String}
variable {count : String → Nat} {name : String} {start make increment sum : Value}

namespace Store.KeepsCounters

theorem tick (h : s.KeepsCounters increment b frame names count) :
    s.tick.KeepsCounters increment b frame names count :=
  ⟨⟨h.global, h.initial⟩, h.closure, h.own, h.pos, h.apart⟩

theorem record (h : s.KeepsCounters increment b frame names count) (event : Event) :
    (s.record event).KeepsCounters increment b frame names count :=
  ⟨⟨h.global, h.initial⟩, h.closure, h.own, h.pos, h.apart⟩

/-- A call gets a frame of its own. -/
theorem call (h : s.KeepsCounters increment b frame names count) (env : FrameId)
    (formals : Formals String) (args : List Value) (event : Event) :
    ((s.bindArguments env formals args).record event).KeepsCounters increment b frame names count :=
  ⟨⟨frames_call h.global _ _ _ _, h.initial⟩, h.closure,
    fun name hname => frames_call (h.own name hname) _ _ _ _, h.pos, h.apart⟩

/-- The frame of a call of a counter extends the frame of the counter. -/
theorem inCounter (h : s.KeepsCounters increment b frame names count) (hname : name ∈ names)
    (event : Event) :
    ((s.bindArguments (frame name) ⟨[], none⟩ []).record event).InCounter b (frame name) s.nextFrame
      (count name) :=
  have hcall := h.call (frame name) ⟨[], none⟩ [] event
  ⟨hcall.toHasGlobal, hcall.own name hname, frames_call_self _ _ _ _ _, h.pos name hname,
    lt_nextFrame (h.own name hname)⟩

/-- **A change of one count** leaves the others as they are, since their frames are different. -/
theorem define (h : s.KeepsCounters increment b frame names count) (hname : name ∈ names)
    (m : Nat) :
    (s.define (frame name) "n" (.number (.ofInt m))).KeepsCounters increment b frame names
      (Function.update count name m) := by
  refine ⟨h.define_of_ne (h.pos name hname).ne' _ _, h.closure, fun other hother => ?_,
    h.pos, h.apart⟩
  by_cases heq : other = name
  · subst heq
    rw [Function.update_self]
    exact frames_define (h.own other hother) _ _
  · have hframe : frame name ≠ frame other := fun hframe => heq (h.apart hname hother hframe).symm
    rw [Function.update_of_ne heq, frames_define_of_ne hframe]
    exact h.own other hother

/-- **One call** gives the next count of its counter, and leaves the others as they are. -/
theorem exists_gives (h : s.KeepsCounters increment b frame names count)
    (hmaker : IsMaker start make increment sum) (hname : name ∈ names)
    (hdepth : settings.Allows 3) :
    ∃ s', s'.KeepsCounters increment b frame names (Function.update count name (count name + 1)) ∧
      ∀ stamp, Gives settings (.enter (Value.ofSexp stamp (counterCall name)) Store.global) 0 s
        (.number (.ofInt (count name + 1 : Nat))) s' := by
  obtain ⟨id, hb, hid⟩ := h.closure name hname
  have hkeeps := h.call (frame name) ⟨[], none⟩ [] (.call "" 0)
  have hin := h.inCounter hname (.call "" 0)
  have hone : settings.Allows 1 := hdepth.mono (by omega)
  refine ⟨_, hkeeps.tick.define hname (count name + 1), fun stamp => ?_⟩
  have hform : (Value.ofSexp stamp (counterCall name)).IsForm name [] := ⟨_, _, rfl, rfl⟩
  -- the count goes up, and the call gives it
  have hforms := GivesAll.cons (hin.gives_increment hmaker hdepth) (.nil _)
  have hcall := gives_closure hform (h.find hb) hone (.nil s) hid rfl rfl hforms
    (gives_symbol (hin.tick.define (count name + 1)).find_count rfl)
  exact hcall.enter (hone.mono (Nat.zero_le 1))

/-- **All calls**, in any order: each gives how often its counter has been called by then, and the
global frame stays as it is. -/
theorem exists_evaluatesAll (h : s.KeepsCounters increment b frame names count)
    (hmaker : IsMaker start make increment sum) (hdepth : settings.Allows 3) {calls : List String}
    (hcalls : ∀ name ∈ calls, name ∈ names) :
    ∃ os s',
      Interpreter.EvaluatesAll ⟨settings, s⟩ (atTop (calls.map counterCall)) os ⟨settings, s'⟩ ∧
      (∀ k name, calls[k]? = some name → os[k]? =
        some
          (Outcome.value (.number (.ofInt (count name + (calls.take (k + 1)).count name : Nat))))) ∧
      s'.HasGlobal b := by
  induction calls generalizing s count with
  | nil => exact ⟨[], s, .nil _, nofun, h.toHasGlobal⟩
  | cons first rest ih =>
    rw [List.forall_mem_cons] at hcalls
    obtain ⟨s₁, hkeeps, hgives⟩ := h.tick.exists_gives hmaker hcalls.1 hdepth
    obtain ⟨os, s', hrest, hcounts, hglobal⟩ := ih hkeeps hcalls.2
    refine ⟨_, s', .cons (Interpreter.evaluatesTo_of_gives (hgives s.clock)) hrest,
      fun k name hk => ?_,
      hglobal⟩
    cases k with
    | zero =>
      obtain rfl : first = name := Option.some.inj hk
      rw [List.take_succ_cons, List.take_zero, List.count_singleton_self]
      rfl
    | succ k =>
      -- the first call counts for its own counter
      have hcount :
          Function.update count first (count first + 1) name + (rest.take (k + 1)).count name =
          count name + ((first :: rest).take (k + 2)).count name := by
        rw [List.take_succ_cons, List.count_cons]
        by_cases hname : name = first
        · subst hname
          rw [Function.update_self, if_pos (beq_self_eq_true name)]
          omega
        · rw [Function.update_of_ne hname, if_neg (by simpa using Ne.symm hname)]
          rfl
      rw [← hcount]
      exact hcounts k name hk

/-! ### The definition of a counter -/

/-- A definition in another frame. -/
theorem define_of_ne (h : s.KeepsCounters increment b frame names count) {env : FrameId}
    (henv : env ≠ Store.global) (hother : ∀ name ∈ names, env ≠ frame name) (x : String)
    (v : Value) :
    (s.define env x v).KeepsCounters increment b frame names count :=
  ⟨h.toHasGlobal.define_of_ne henv x v, h.closure,
    fun name hname => (frames_define_of_ne (hother name hname) x v).trans (h.own name hname),
      h.pos, h.apart⟩

theorem addClosure (h : s.KeepsCounters increment b frame names count) (c : Closure) :
    (s.addClosure c).KeepsCounters increment b frame names count := by
  refine ⟨⟨h.global, h.initial⟩, fun name hname => ?_, h.own, h.pos, h.apart⟩
  obtain ⟨id, hb, hid⟩ := h.closure name hname
  exact ⟨id, hb, closures_addClosure hid c⟩

/-- **A new counter**, with a frame that no other counter has. -/
theorem insert (h : s.KeepsCounters increment b frame names count)
    (hname : Bindings.get? b name = none) {id : Nat} {home : FrameId}
    (hid : s.closures[id]? = some (counterClosure increment home))
    (hhome : s.frames[home]? = some (counterFrame (count name))) (hpos : Store.global < home)
    (hnew : ∀ other ∈ names, frame other ≠ home) :
    (s.define Store.global name (.object (.closure id ""))).KeepsCounters increment
      (Bindings.set name (.object (.closure id "")) b) (Function.update frame name home)
      (name :: names) count := by
  have hkept : ∀ other ∈ names, Function.update frame name home other = frame other := by
    intro other hother
    obtain ⟨id', hb, -⟩ := h.closure other hother
    exact Function.update_of_ne (Bindings.ne_of_get?_eq_none hname hb) _ _
  have hself : Function.update frame name home name = home := Function.update_self _ _ _
  refine ⟨h.toHasGlobal.define hname _, ?_, ?_, ?_, ?_⟩
  · rw [List.forall_mem_cons, hself]
    refine ⟨⟨id, by rw [Bindings.get?_set, if_pos rfl], hid⟩, fun other hother => ?_⟩
    obtain ⟨id', hb, hid'⟩ := h.closure other hother
    rw [hkept other hother]
    exact ⟨id', Bindings.get?_set_of_new hname hb _, hid'⟩
  · rw [List.forall_mem_cons, hself, frames_define_of_ne hpos.ne]
    refine ⟨hhome, fun other hother => ?_⟩
    rw [hkept other hother, frames_define_of_ne (h.pos other hother).ne]
    exact h.own other hother
  · rw [List.forall_mem_cons, hself]
    exact ⟨hpos, fun other hother => (hkept other hother).symm ▸ h.pos other hother⟩
  · intro x hx y hy hxy
    rcases List.mem_cons.1 hx with rfl | hx' <;> rcases List.mem_cons.1 hy with rfl | hy'
    · rfl
    · rw [hself, hkept y hy'] at hxy
      exact absurd hxy.symm (hnew y hy')
    · rw [hself, hkept x hx'] at hxy
      exact absurd hxy (hnew x hx')
    · rw [hkept x hx', hkept y hy'] at hxy
      exact h.apart hx' hy' hxy

end Store.KeepsCounters

/-- In addition, no counter has been called, and `make-counter` makes another one. -/
structure Store.MakesCounters (s : Store) (start make increment : Value) (b : Bindings)
    (frame : String → FrameId) (names : List String) : Prop
    extends s.KeepsCounters increment b frame names fun _ => 0 where
  maker : Bindings.get? b "make-counter" = some (.object (.closure 0 "make-counter"))
  body : s.closures[0]? = some ⟨.nil, [start, make], Store.global⟩

namespace Store.MakesCounters

theorem tick (h : s.MakesCounters start make increment b frame names) :
    s.tick.MakesCounters start make increment b frame names :=
  ⟨h.toKeepsCounters.tick, h.maker, h.body⟩

/-- **A call of `make-counter`** gives a closure on the frame of that call, which starts to count at
zero. -/
theorem exists_gives_make (h : s.MakesCounters start make increment b frame names)
    (hmaker : IsMaker start make increment sum) (hdepth : settings.Allows 3) :
    ∃ s', s'.MakesCounters start make increment b frame names ∧
      s'.frames[s.nextFrame]? = some (counterFrame 0) ∧
      s'.closures[s.nextClosure]? = some (counterClosure increment s.nextFrame) ∧
      ∀ x, Value.IsForm x "make-counter" [] →
        Gives settings (.enter x Store.global) 1 s (.object (.closure s.nextClosure "")) s' := by
  have htwo : settings.Allows 2 := hdepth.mono (Nat.le_succ 2)
  have hpos : Store.global < s.nextFrame := lt_nextFrame h.global
  have hnew : ∀ name ∈ names, s.nextFrame ≠ frame name :=
    fun name hname => (lt_nextFrame (h.own name hname)).ne'
  -- the call gets a frame, defines the count there and makes the counter
  have hcall := h.call Store.global ⟨[], none⟩ [] (.call "make-counter" 0)
  have hframe := frames_call_self s Store.global ⟨[], none⟩ [] (.call "make-counter" 0)
  have hcounting := (hcall.record (.define "n")).define_of_ne hpos.ne' hnew "n" (.number (.ofInt 0))
  have hcount := frames_define hframe "n" (.number (.ofInt 0))
  refine ⟨_, ⟨hcounting.addClosure _, h.maker, closures_addClosure h.body _⟩, hcount,
    Array.getElem?_push_size,
    fun x hx => ?_⟩
  have hgives := gives_closure hx (h.find h.maker) htwo (.nil s) h.body rfl rfl
    (.cons (hcall.gives_start hmaker hframe hpos hdepth) (.nil _))
    (hcounting.gives_make hmaker hcount hpos)
  exact hgives.enter (htwo.mono (Nat.le_succ 1))

/-- **One definition** makes a new counter. -/
theorem exists_gives (h : s.MakesCounters start make increment b frame names)
    (hmaker : IsMaker start make increment sum) (hname : Bindings.get? b name = none)
    (hdepth : settings.Allows 3) :
    ∃ s' v home, s'.MakesCounters start make increment (Bindings.set name v b)
      (Function.update frame name home)
        (name :: names) ∧
      ∀ stamp, Gives settings (.enter (Value.ofSexp stamp (counterDefinition name)) Store.global) 0
        s .void
        s' := by
  obtain ⟨s₁, hmakes, hhome, hclosure, hmake⟩ := h.exists_gives_make hmaker hdepth
  have hkeeps := (hmakes.toKeepsCounters.record (.define name)).insert hname hclosure hhome
    (lt_nextFrame h.global) fun other hother => (lt_nextFrame (h.own other hother)).ne
  refine ⟨_, _, _, ⟨hkeeps, Bindings.get?_set_of_new hname h.maker _, hmakes.body⟩, fun stamp => ?_⟩
  obtain ⟨y, hform, hy⟩ : ∃ y,
      (Value.ofSexp stamp (counterDefinition name)).IsForm "define" [.symbol name, y] ∧
        y.IsForm "make-counter" [] := ⟨_, ⟨_, _, rfl, rfl⟩, ⟨_, _, rfl, rfl⟩⟩
  have hgives := gives_defineValue hform (h.find (h.get?_keyword .define)) (hmake y hy)
  exact hgives.enter (hdepth.mono (by omega))

/-- **All definitions**, of different new names. -/
theorem exists_evaluatesAll (h : s.MakesCounters start make increment b frame names)
    (hmaker : IsMaker start make increment sum) (hdepth : settings.Allows 3) {more : List String}
    (hmore : more.Nodup) (hfresh : ∀ name ∈ more, Bindings.get? b name = none) :
    ∃ s' b' frame', s'.MakesCounters start make increment b' frame' (more.reverse ++ names) ∧
      Interpreter.EvaluatesAll ⟨settings, s⟩ (atTop (more.map counterDefinition))
        (List.replicate more.length (.value .void)) ⟨settings, s'⟩ := by
  induction more generalizing s b frame names with
  | nil => exact ⟨s, b, frame, h, .nil _⟩
  | cons name rest ih =>
    rw [List.nodup_cons] at hmore
    rw [List.forall_mem_cons] at hfresh
    obtain ⟨s₁, v, home, hmakes, hgives⟩ := h.tick.exists_gives hmaker hfresh.1 hdepth
    have hfresh' : ∀ other ∈ rest, Bindings.get? (Bindings.set name v b) other = none := by
      intro other hother
      have hne : other ≠ name := by
        rintro rfl
        exact hmore.1 hother
      rw [Bindings.get?_set, if_neg hne, hfresh.2 other hother]
    obtain ⟨s', b', frame', hmakes', hrest⟩ := ih hmakes hmore.2 hfresh'
    refine ⟨s', b', frame', ?_, .cons (Interpreter.evaluatesTo_of_gives (hgives s.clock)) hrest⟩
    rw [List.reverse_cons, List.append_assoc]
    exact hmakes'

end Store.MakesCounters

/-- The global bindings after the definition of `make-counter`. -/
def makerBindings : Bindings :=
  Bindings.set "make-counter" (.object (.closure 0 "make-counter")) Store.initialBindings

/-- The definition of `make-counter` in a new interpreter. -/
theorem exists_gives_counterMaker (hdepth : settings.Allows 0) (recording : Bool) :
    ∃ start make increment sum s, IsMaker start make increment sum ∧
      s.MakesCounters start make increment makerBindings (fun _ => Store.global) [] ∧
      Gives settings (.enter (Value.ofSexp 0 counterMaker) Store.global) 0
        (Store.initial recording).tick .void
        s := by
  obtain ⟨l, start, make, increment, sum, hform, hmaker⟩ : ∃ l start make increment sum,
      (Value.ofSexp 0 counterMaker).IsForm "define"
        [.pair l (.symbol "make-counter") .nil, start, make] ∧
        IsMaker start make increment sum :=
    ⟨_, _, _, _, _, ⟨_, _, rfl, rfl⟩, ⟨_, _, rfl, rfl⟩, ⟨_, _, rfl, rfl⟩, ⟨_, _, rfl, rfl⟩,
      ⟨_, _, rfl, rfl⟩⟩
  have hglobal : (Store.initial recording).tick.HasGlobal Store.initialBindings :=
    ⟨rfl, fun _ _ hv => hv⟩
  have hgives : Gives settings (.eval (Value.ofSexp 0 counterMaker) Store.global) (0 + 1)
      (Store.initial recording).tick .void _ :=
    gives_define hform (hglobal.find (hglobal.get?_keyword .define)) rfl (List.cons_ne_nil _ _)
  have hname : Bindings.get? Store.initialBindings "make-counter" = none := by decide +kernel
  have hself :
      Bindings.get? makerBindings "make-counter" = some (.object (.closure 0 "make-counter")) := by
    rw [makerBindings, Bindings.get?_set, if_pos rfl]
  refine ⟨start, make, increment, sum, _, hmaker, ⟨?_, hself, rfl⟩, hgives.enter hdepth⟩
  exact ⟨Store.HasGlobal.define ⟨rfl, hglobal.initial⟩ hname _, nofun, nofun, nofun,
    fun _ h => absurd h List.not_mem_nil⟩

end Counters

/-- **Counters that are made by one procedure count apart.**  In a new interpreter, without a bound
on the depth or with one of at least four, define `make-counter` and then, by its calls, any number
of counters with different new names.  Whatever the order in which these counters are called then,
each call gives how often its own counter has been called by then.  The calls leave the bindings of
the global frame as they are. -/
theorem counters_apart {bound : Int} (hbound : bound ≤ 0 ∨ 4 ≤ bound) (recording : Bool)
    {names calls : List String} (hnames : names.Nodup)
    (hnew : ∀ name ∈ names, name ≠ "make-counter" ∧ Bindings.get? Store.initialBindings name = none)
    (hcalls : ∀ name ∈ calls, name ∈ names) :
    ∃ i os i',
      (Interpreter.start bound recording).EvaluatesAll
        (atTop (counterMaker :: names.map counterDefinition))
        (List.replicate (names.length + 1) (.value .void)) i ∧
      i.EvaluatesAll (atTop (calls.map counterCall)) os i' ∧
      (∀ k name, calls[k]? = some name →
        os[k]? = some (Outcome.value (.number (.ofInt ((calls.take (k + 1)).count name : Nat))))) ∧
      i'.store.frames[Store.global]? = i.store.frames[Store.global]? := by
  have hdepth : (Settings.ofBound bound).Allows 3 :=
    (Settings.allows_ofBound_iff bound 3).2 (by omega)
  obtain ⟨start, make, increment, sum, s, hmaker, hmakes, hgives⟩ :=
    exists_gives_counterMaker (hdepth.mono (Nat.zero_le 3)) recording
  have hfresh : ∀ name ∈ names, Bindings.get? makerBindings name = none := by
    intro name hname
    obtain ⟨hne, hget⟩ := hnew name hname
    rw [makerBindings, Bindings.get?_set, if_neg hne, hget]
  obtain ⟨s₁, b₁, frame, hmakes₁, hdefinitions⟩ :=
    hmakes.exists_evaluatesAll hmaker hdepth hnames hfresh
  have hmem : ∀ name ∈ calls, name ∈ names.reverse ++ [] := by
    intro name hname
    rw [List.append_nil, List.mem_reverse]
    exact hcalls name hname
  obtain ⟨os, s₂, hevaluates, hcounts, hglobal⟩ :=
    hmakes₁.toKeepsCounters.exists_evaluatesAll hmaker hdepth hmem
  refine ⟨⟨.ofBound bound, s₁⟩, os, ⟨.ofBound bound, s₂⟩,
    .cons (Interpreter.evaluatesTo_of_gives hgives) hdefinitions, hevaluates, fun k name hk => ?_,
    hglobal.global.trans hmakes₁.global.symm⟩
  rw [hcounts k name hk, Nat.zero_add]

/-- Two counters, of which the first is called twice. -/
theorem counters_apart_two : ∃ i os i', (Interpreter.start 0 false).EvaluatesAll
      (atTop [counterMaker, counterDefinition "a", counterDefinition "b"])
      (List.replicate 3 (.value .void)) i ∧
    i.EvaluatesAll (atTop [counterCall "a", counterCall "b", counterCall "a"]) os i' ∧
    os[0]? = some (.value (.number (.ofInt 1))) ∧ os[1]? = some (.value (.number (.ofInt 1))) ∧
    os[2]? = some (.value (.number (.ofInt 2))) ∧
    i'.store.frames[Store.global]? = i.store.frames[Store.global]? := by
  have hnew : ∀ name ∈ ["a", "b"], name ≠ "make-counter" ∧
      Bindings.get? Store.initialBindings name = none := by
    decide +kernel
  have hmem : ∀ name ∈ ["a", "b", "a"], name ∈ ["a", "b"] := by decide
  obtain ⟨i, os, i', hdefinitions, hcalls, hcounts, hglobal⟩ :=
    counters_apart (Or.inl (le_refl 0)) false (by decide) hnew hmem
  exact ⟨i, os, i', hdefinitions, hcalls, hcounts 0 "a" rfl, hcounts 1 "b" rfl, hcounts 2 "a" rfl,
    hglobal⟩

end Scheme
