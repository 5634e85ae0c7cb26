import Mathlib
import Scheme.Proofs.Safety

/-!
# Keywords stay apart from values

A special form is known by a keyword that the global frame binds to its name.  Such a binding can be
shadowed, replaced or changed like any other, but the keyword itself never moves: looking up its
name is an error, so that it does not become a value, and no value of an evaluation holds one.  A
form is therefore run as a special form only under the name of that special form.

* `Value.IsKeywordFree`: the value neither is a keyword nor holds one;
* `Config.values`: all values that a configuration holds outside of its store;
* `Store.KeywordsApart`: the store binds keywords to their own names only;
* `keywords_apart`: the main result.
-/

namespace Scheme

/-- The value neither is a keyword nor holds one. -/
def Value.IsKeywordFree (v : Value) : Prop := ∀ k : Keyword, ¬ Datum.Holds (.keyword k) v

theorem Value.Sound.isKeywordFree {n : Nat} {v : Value} (h : v.Sound n) : v.IsKeywordFree :=
  fun k hk => h (.keyword k) hk

/-! ### The values of a configuration -/

/-- The values that the machine goes on with: an expression, a procedure with its arguments, or a
result. -/
def Control.values : Control → List Value
  | .enter x _ => [x]
  | .eval x _ => [x]
  | .expand x _ _ => [x]
  | .invoke f args => f :: args
  | .apply f args => f :: args
  | .ret v => [v]
  | .fail _ => []
  | .stuck _ => []

/-- The values that a task keeps: expressions that are still to be evaluated, and results so far. -/
def Task.values : Task → List Value
  | .operator form operands _ => [form, operands]
  | .operand f before after _ => f :: (before ++ after)
  | .branch yes no _ => yes :: no.toList
  | .forms rest _ => rest
  | .body rest _ => rest
  | .report x => [x]
  | .expandCdr cdr _ _ => [cdr]
  | .joinCar _ car => [car]
  | .spliceRest rest _ => [rest]
  | .spliceInto items => [items]
  | .leave | .define .. | .assign .. | .named _ | .requote _ | .gather => []

/-- The values that a configuration holds outside of its store. -/
def Config.values (c : Config) : List Value := c.control.values ++ c.tasks.flatMap Task.values

theorem Control.Sound.values {s : Store} {control : Control} (h : control.Sound s) :
    ∀ v ∈ control.values, v.Sound s.closures.size := by
  cases control with
  | enter x env | eval x env | expand x level env => exact List.forall_mem_singleton.2 h.1
  | invoke f args => exact List.forall_mem_cons.2 h.2
  | apply f args => exact List.forall_mem_cons.2 h
  | ret v => exact List.forall_mem_singleton.2 h
  | fail e => exact List.forall_mem_nil _
  | stuck b => exact List.forall_mem_nil _

theorem Task.Sound.values {s : Store} {t : Task} (h : t.Sound s) :
    ∀ v ∈ t.values, v.Sound s.closures.size := by
  cases t with
  | operator form operands env =>
    exact List.forall_mem_cons.2 ⟨h.1, List.forall_mem_singleton.2 h.2.1⟩
  | operand f before after env =>
    obtain ⟨-, hf, hbefore, hafter, -⟩ := h
    exact List.forall_mem_cons.2 ⟨hf, List.forall_mem_append.2 ⟨hbefore, hafter⟩⟩
  | branch yes no env =>
    refine List.forall_mem_cons.2 ⟨h.1, fun x hx => ?_⟩
    exact h.2.1 x (Option.mem_toList.1 hx)
  | forms rest env => exact h.2.1
  | body rest env => exact h.1
  | report x => exact List.forall_mem_singleton.2 h
  | expandCdr cdr level env => exact List.forall_mem_singleton.2 h.1
  | joinCar label car => exact List.forall_mem_singleton.2 h
  | spliceRest rest env => exact List.forall_mem_singleton.2 h.1
  | spliceInto items => exact List.forall_mem_singleton.2 h
  | leave | define | assign | named | requote | gather => exact List.forall_mem_nil _

theorem Config.Sound.isKeywordFree {origin : Store} {c : Config} (h : c.Sound origin) :
    ∀ v ∈ c.values, v.IsKeywordFree := by
  intro v hv
  rcases List.mem_append.1 hv with hcontrol | htask
  · exact (h.control.values v hcontrol).isKeywordFree
  · obtain ⟨t, ht, hvt⟩ := List.mem_flatMap.1 htask
    exact ((h.tasks t ht).values v hvt).isKeywordFree

/-! ### Bindings -/

/-- A chain holds what its elements and its end hold. -/
theorem Datum.not_holds_of_spine {ι ξ : Type} {x : ξ} {d : Datum ι ξ}
    (hitems : ∀ y ∈ d.spine.1, ¬ Holds x y) (htail : ¬ Holds x d.spine.2) : ¬ Holds x d := by
  induction d using Datum.spine.induct with
  | case1 l a d ih =>
    rw [spine_pair, List.forall_mem_cons] at hitems
    rintro (_ | ha | hd)
    · exact hitems.1 ha
    · exact ih hitems.2 htail hd
  | case2 d hd =>
    have hspine : d.spine = ([], d) := by
      cases d with
      | pair l a d => exact absurd rfl (hd l a d)
      | _ => rfl
    rwa [hspine] at htail

/-- A symbol holds nothing. -/
theorem Datum.not_holds_of_symbol? {ι ξ : Type} {x : ξ} {d : Datum ι ξ} {name : String}
    (h : d.symbol? = some name) : ¬ Holds x d := by
  rintro (_ | _ | _ | _) <;> cases h

theorem Datum.forall_not_holds_of_symbol? {ι ξ : Type} {x : ξ} {ds : List (Datum ι ξ)}
    {names : List String} (h : List.Forall₂ (fun d name => d.symbol? = some name) ds names) :
    ∀ d ∈ ds, ¬ Holds x d := by
  induction h with
  | nil => exact List.forall_mem_nil _
  | cons hname _ ih => exact List.forall_mem_cons.2 ⟨not_holds_of_symbol? hname, ih⟩

/-- Parameters that are accepted are symbols, so the datum that lists them holds nothing. -/
theorem Formals.not_holds_of_parse? {params : Value} {formals : Formals String}
    (h : parse? params = some formals) (x : Object) : ¬ Datum.Holds x params := by
  obtain ⟨hrequired, hrest⟩ := names?_eq_some_iff.1 (names?_of_parse? h)
  refine Datum.not_holds_of_spine (Datum.forall_not_holds_of_symbol? (forall₂_of_mapM hrequired)) ?_
  have htail : params.tail? = (ofValue params).rest := rfl
  unfold Datum.tail? at htail
  obtain ⟨hnone, -⟩ | ⟨r, name, hsome, hname, -⟩ := hrest
  · rw [hnone] at htail
    split_ifs at htail with hnil
    cases hend : params.spine.2 with
    | nil => nofun
    | _ => simp [hend, Datum.isNil] at hnil
  · rw [hsome] at htail
    split_ifs at htail with hnil
    cases htail
    exact Datum.not_holds_of_symbol? hname

/-- A keyword is bound only in the global frame and only to its own name, and neither another
binding nor the parameters and the body of a closure hold one. -/
structure Store.KeywordsApart (s : Store) : Prop where
  bound : ∀ (env : FrameId) f, s.frames[env]? = some f →
    ∀ name v, Bindings.get? f.bindings name = some v →
    v.IsKeywordFree ∨ (env = Store.global ∧ ∃ k : Keyword, v = .object (.keyword k) ∧ k.name = name)
  params : ∀ (id : Nat) closure, s.closures[id]? = some closure → closure.params.IsKeywordFree
  body : ∀ (id : Nat) closure, s.closures[id]? = some closure → ∀ x ∈ closure.body, x.IsKeywordFree

theorem Store.Sound.keywordsApart {s : Store} (h : s.Sound) : s.KeywordsApart where
  bound env f henv name v hv := by
    rcases h.bound env f henv name v hv with hsound | hkeyword
    · exact Or.inl hsound.isKeywordFree
    · exact Or.inr hkeyword
  params id closure hid k := by
    obtain ⟨formals, hformals⟩ := (h.closure id closure hid).formals
    exact Formals.not_holds_of_parse? hformals _
  body id closure hid x hx := ((h.closure id closure hid).forms x hx).isKeywordFree

theorem Value.eq_of_keyword? {v : Value} {k : Keyword} (h : v.keyword? = some k) :
    v = .object (.keyword k) := by
  unfold Value.keyword? at h
  split at h
  · cases h
    rfl
  · cases h

/-- A head that denotes a special form is the symbol of its name. -/
theorem Store.Sound.eq_of_headKeyword? {c : Config} (h : c.store.Sound) {head : Value}
    {env : FrameId} {k : Keyword} (hk : c.headKeyword? head env = some k) :
    head = .symbol k.name := by
  unfold Config.headKeyword? at hk
  split at hk
  · rename_i name
    obtain ⟨⟨env', v⟩, hfind, hkeyword⟩ := Option.bind_eq_some_iff.1 hk
    obtain rfl := Value.eq_of_keyword? hkeyword
    -- a keyword is not sound, so the binding that was found is one of those of the start
    rcases h.binds_of_find hfind with hsound | ⟨-, k', heq, hname⟩
    · exact (Value.sound_object.1 hsound).elim
    · cases heq
      rw [hname]
  · cases hk

theorem Config.step_of_headKeyword? {c : Config} {head tail : Value} {env : FrameId} {k : Keyword}
    (hk : c.headKeyword? head env = some k) {l : Label} {operands : List Value}
    (hc : c.control = .eval (.pair l head tail) env) (hoperands : tail.elements? = some operands)
    (settings : Settings) : c.step settings = c.evalKeyword k (.pair l head tail) operands env := by
  unfold Config.step
  rw [hc]
  simp only [Config.evalStep, Config.evalForm, hk, hoperands]

/-- **Keywords stay apart.**  In every reachable state, and in every configuration that an
evaluation or a call passes through there, keywords are bound in the global frame to their own names
and to nothing else; the values so far, and all expressions, arguments and results on the way, are
free of keywords; and where the head of a form is taken for a special form, it is the symbol of its
name, and that form is run. -/
theorem keywords_apart {i : Interpreter} {vs : List Value} (h : Reachable i vs) :
    i.store.KeywordsApart ∧ (∀ v ∈ vs, v.IsKeywordFree) ∧
      ∀ c, Visited i vs c → c.store.KeywordsApart ∧ (∀ v ∈ c.values, v.IsKeywordFree) ∧
        ∀ head env k, c.headKeyword? head env = some k → head = .symbol k.name ∧
          ∀ l tail operands, c.control = .eval (.pair l head tail) env →
            tail.elements? = some operands →
            c.step i.settings = c.evalKeyword k (.pair l head tail) operands env := by
  obtain ⟨hstore, hvs⟩ := h.sound
  refine ⟨hstore.keywordsApart, fun v hv => (hvs v hv).isKeywordFree, fun c hc => ?_⟩
  have hsound := hc.sound h
  refine ⟨hsound.store.keywordsApart, hsound.isKeywordFree, fun head env k hk => ?_⟩
  exact ⟨hsound.store.eq_of_headKeyword? hk,
    fun l tail operands hcontrol hoperands => Config.step_of_headKeyword? hk hcontrol hoperands _⟩

/-- After `(define if list)` the name `if` denotes a procedure, while `quote` still denotes its
special form. -/
theorem keywords_apart_redefined :
    let d : Sexp := .ofList [.symbol "define", .symbol "if", .symbol "list"] .nil
    let x := ((Interpreter.start 0 false).intern d).1
    let i := ((Interpreter.start 0 false).intern d).2
    let c := (Config.step i.settings)^[6] ⟨.enter x Store.global, [.report x], 0, i.store⟩
    (c.store.KeywordsApart ∧ ∀ head env k, c.headKeyword? head env = some k →
      head = .symbol k.name) ∧
      c.headKeyword? (.symbol "if") Store.global = none ∧
      c.headKeyword? (.symbol "quote") Store.global = some .quote := by
  intro d x i c
  have hreachable : Reachable i [x] := .read (.start 0 false) d
  have hx : MadeOf [x] x := fun o ho => ⟨x, List.mem_cons_self, ho⟩
  have hvisited : Visited i [x] c := (Visited.enter hx Nat.zero_lt_one).iterate 6
  obtain ⟨hstore, -, hhead⟩ := (keywords_apart hreachable).2.2 c hvisited
  exact ⟨⟨hstore, fun head env k hk => (hhead head env k hk).1⟩,
    by decide +kernel, by decide +kernel⟩

end Scheme
