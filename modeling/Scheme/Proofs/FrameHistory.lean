import Mathlib
import Scheme.Proofs.Binding

/-!
# Frames and their history

Starting from one empty frame, frames are added on existing ones, with or without bindings, and
names are bound and bindings changed in them.  The history of these operations says which frame a
name belongs to and which value it has: the frame is the nearest one outward in which some operation
has bound the name, and the value is that of the latest operation on this entry.

* `FrameOperation`: the operations, with `Store.perform` and `Store.after`;
* `FrameHistory.replay`: the store after a history;
* `FrameHistory.path`, `FrameHistory.value?`, `FrameHistory.nearest`: what the history says, without
  a store;
* `Store.binding?`: one entry of a store, with one lemma for each change of a store;
* `lookup_follows_history`: the main result.
-/

namespace Scheme

/-! ### Operations -/

/-- An operation on the frames of a store. -/
inductive FrameOperation where
  /-- Add an empty frame on `env`. -/
  | newFrame (env : FrameId)
  /-- Add a frame on `env` that binds accepted parameters to arguments. -/
  | extend (env : FrameId) (procedure : String) (params : Value) (formals : Formals String)
      (accepted : Formals.parse? params = some formals) (args : List Value)
  /-- Bind a name in `env`. -/
  | define (env : FrameId) (name : String) (v : Value)
  /-- Change the nearest binding of a name, seen from `env`. -/
  | assign (env : FrameId) (name : String) (v : Value)

namespace FrameOperation

/-- The frame that an operation is called on. -/
def env : FrameOperation → FrameId
  | .newFrame env => env
  | .extend env .. => env
  | .define env .. => env
  | .assign env .. => env

/-- The operation adds a frame. -/
def addsFrame : FrameOperation → Bool
  | .newFrame _ => true
  | .extend _ _ _ formals _ args => formals.arity.accepts args.length
  | .define .. => false
  | .assign .. => false

end FrameOperation

namespace Store

/-- Perform an operation, which can fail. -/
def perform (s : Store) : FrameOperation → Except Failure Store
  | .newFrame env => .ok (s.newFrame env)
  | .extend env procedure params _ _ args => s.extend env procedure params args
  | .define env name v => .ok (s.define env name v)
  | .assign env name v => (s.assign env name v).mapError .error

/-- The store after an operation has been tried. -/
def after (s : Store) (op : FrameOperation) : Store :=
  match s.perform op with
  | .ok s' => s'
  | .error _ => s

/-- A store with one empty frame. -/
def bare : Store where
  frames := #[⟨none, []⟩]
  closures := #[]
  clock := 0
  output := ""
  journal := none

end Store

/-! ### What a history says -/

/-- The argument that a parameter is bound to; the last parameter may take the list of those that
are left. -/
def Formals.argument? (f : Formals String) (stamp : Nat) (args : List Value) (name : String) :
    Option Value :=
  if f.rest = some name then some (Value.list stamp (args.drop f.required.length) .nil)
  else (f.required.zip args).lookup name

/-- The value that an operation gives to the name in the frame `env`, if that entry is its target.
The operation comes when there are `size` frames, and `nearest` tells which frame binds a name
then. -/
def FrameOperation.entry? (size stamp : Nat) (nearest : FrameId → String → Option FrameId)
    (env : FrameId) (name : String) : FrameOperation → Option Value
  | .newFrame _ => none
  | .extend _ _ _ formals _ args =>
    if formals.arity.accepts args.length ∧ env = size then
      formals.argument? stamp args name
    else none
  | .define env' name' v => if env = env' ∧ name = name' then some v else none
  | .assign env' name' v => if nearest env' name' = some env ∧ name = name' then some v else none

/-- Operations on frames, the latest first. -/
abbrev FrameHistory := List FrameOperation

namespace FrameHistory

/-- The number of frames, of which the root is there from the start. -/
def size : FrameHistory → Nat
  | [] => 1
  | op :: ops => if op.addsFrame then size ops + 1 else size ops

/-- The number of extensions, which is the stamp of the next labels. -/
def stamp : FrameHistory → Nat
  | [] => 0
  | .extend _ _ _ formals _ args :: ops =>
    if formals.arity.accepts args.length then stamp ops + 1 else stamp ops
  | _ :: ops => stamp ops

/-- The frames from `env` outward to the root. -/
def path : FrameHistory → FrameId → List FrameId
  | [], env => [env]
  | op :: ops, env =>
    if op.addsFrame ∧ env = size ops then env :: path ops op.env else path ops env

/-- The value that the latest operation on the entry of a name in a frame has given to it. -/
def value? : FrameHistory → FrameId → String → Option Value
  | [], _, _ => none
  | op :: ops, env, name =>
    let nearest (env : FrameId) (name : String) : Option FrameId :=
      (path ops env).find? fun f => (value? ops f name).isSome
    (op.entry? (size ops) (stamp ops) nearest env name).or (value? ops env name)

/-- The nearest frame from `env` outward in which an operation has bound the name. -/
def nearest (ops : FrameHistory) (env : FrameId) (name : String) : Option FrameId :=
  (path ops env).find? fun f => (value? ops f name).isSome

/-- Every operation is called on a frame that exists. -/
def IsValid : FrameHistory → Prop
  | [] => True
  | op :: ops => op.env < size ops ∧ IsValid ops

/-- The store after the operations. -/
def replay : FrameHistory → Store
  | [] => .bare
  | op :: ops => (replay ops).after op

theorem value?_cons (op : FrameOperation) (ops : FrameHistory) (env : FrameId) (name : String) :
    value? (op :: ops) env name =
      (op.entry? (size ops) (stamp ops) (nearest ops) env name).or (value? ops env name) := rfl

end FrameHistory

/-! ### Parameters -/

namespace Formals

theorem areDistinct_iff_nodup {names : List String} : areDistinct names = true ↔ names.Nodup := by
  induction names with
  | nil => exact iff_of_true rfl List.nodup_nil
  | cons n ns ih =>
    rw [areDistinct, Bool.and_eq_true, ih, Bool.not_eq_true', List.contains_eq_mem,
      decide_eq_false_iff_not, List.nodup_cons]

/-- Accepted parameters have different names. -/
theorem nodup_of_parse? {params : Value} {f : Formals String} (h : parse? params = some f) :
    f.all.Nodup := by
  unfold parse? at h
  rw [Option.filter_eq_some_iff] at h
  exact areDistinct_iff_nodup.1 h.2

/-- Bindings that are made one after the other, under different names. -/
theorem get?_foldl_set {pairs : List (String × Value)} (h : (pairs.map Prod.fst).Nodup)
    (b : Bindings) (name : String) :
    Bindings.get? (pairs.foldl (fun b p => Bindings.set p.1 p.2 b) b) name =
      (pairs.lookup name).or (Bindings.get? b name) := by
  induction pairs generalizing b with
  | nil => rfl
  | cons p pairs ih =>
    obtain ⟨n, v⟩ := p
    rw [List.map_cons, List.nodup_cons] at h
    rw [List.foldl_cons, ih h.2, Bindings.get?_set, List.lookup_cons]
    by_cases hn : name = n
    · -- the later names are different from this one
      subst hn
      have hnone : pairs.lookup name = none := by
        rw [List.lookup_eq_none_iff]
        intro p hp
        have hne : name ≠ p.1 := by
          intro heq
          exact h.1 (List.mem_map.2 ⟨p, hp, heq.symm⟩)
        simpa using hne
      rw [hnone, if_pos rfl, beq_self_eq_true]
      rfl
    · rw [if_neg hn, beq_eq_false_iff_ne.2 hn]

/-- **Parameters are bound to their arguments.** -/
theorem get?_bindings {params : Value} {f : Formals String} (h : parse? params = some f)
    (stamp : Nat) (args : List Value) (name : String) :
    Bindings.get? (f.bindings stamp args) name = f.argument? stamp args name := by
  have hnodup := nodup_of_parse? h
  rw [all, List.nodup_append] at hnodup
  have hkeys : ((f.required.zip args).map Prod.fst).Nodup := by
    rw [List.zip_eq_zip_take_min, List.map_fst_zip (by simp)]
    exact hnodup.1.sublist (List.take_sublist _ _)
  have hbound :
      Bindings.get? ((f.required.zip args).foldl (fun b p => Bindings.set p.1 p.2 b) []) name =
        (f.required.zip args).lookup name := by
    rw [get?_foldl_set hkeys]
    exact Option.or_none
  unfold bindings argument?
  cases hrest : f.rest with
  | none =>
    rw [if_neg nofun]
    exact hbound
  | some rest =>
    simp only [Option.some.injEq, Bindings.get?_set]
    by_cases hname : name = rest
    · rw [if_pos hname, if_pos hname.symm]
    · rw [if_neg hname, if_neg (Ne.symm hname)]
      exact hbound

end Formals

/-! ### Entries of a store -/

namespace Store

/-- The value of a name in a frame itself. -/
def binding? (s : Store) (env : FrameId) (name : String) : Option Value :=
  (s.frames[env]?).bind fun f => Bindings.get? f.bindings name

/-- The frames from `env` outward along the parents. -/
inductive IsPath (s : Store) : FrameId → List FrameId → Prop where
  | root {env} (h : s.parent? env = none) : IsPath s env [env]
  | outward {env p path} (h : s.parent? env = some p) (hp : IsPath s p path) :
      IsPath s env (env :: path)

/-- One entry has got a value, and nothing else of the frames has changed. -/
structure Rebinds (s s' : Store) (env : FrameId) (name : String) (v : Value) : Prop where
  size : s'.frames.size = s.frames.size
  parent : ∀ f, s'.parent? f = s.parent? f
  entry : s'.binding? env name = some v
  other : ∀ f n, ¬ (f = env ∧ n = name) → s'.binding? f n = s.binding? f n

variable {s s' : Store}

theorem Rebinds.binding {env : FrameId} {name : String} {v : Value} (h : s.Rebinds s' env name v)
    (f : FrameId) (n : String) :
    s'.binding? f n = (if f = env ∧ n = name then some v else none).or (s.binding? f n) := by
  split_ifs with htarget
  · obtain ⟨rfl, rfl⟩ := htarget
    exact h.entry
  · exact h.other f n htarget

theorem find_eq (s : Store) (env : FrameId) (name : String) : s.find env name =
    ((s.binding? env name).map (env, ·)).or
      ((s.parent? env).bind fun p => if p < env then s.find p name else none) := by
  rw [find]
  unfold binding? parent?
  cases s.frames[env]? with
  | none => rfl
  | some f =>
    simp only [Option.bind_some]
    cases Bindings.get? f.bindings name with
    | some v => rfl
    | none => cases f.parent <;> rfl

theorem binding?_define {env : FrameId} (henv : env < s.frames.size) (name : String) (v : Value)
    (f : FrameId) (n : String) :
    (s.define env name v).binding? f n = if f = env ∧ n = name then some v else s.binding? f n := by
  unfold binding? define
  rw [Array.getElem?_modify]
  by_cases hf : env = f
  · subst hf
    rw [if_pos rfl, Array.getElem?_eq_getElem henv]
    simp only [Option.map_some, Option.bind_some, Bindings.get?_set, true_and]
  · rw [if_neg hf, if_neg fun h => hf h.1.symm]

theorem parent?_define (env : FrameId) (name : String) (v : Value) (f : FrameId) :
    (s.define env name v).parent? f = s.parent? f := by
  unfold parent? define
  rw [Array.getElem?_modify]
  split_ifs
  · cases s.frames[f]? <;> rfl
  · rfl

/-- **A definition changes one entry.** -/
theorem rebinds_define {env : FrameId} (henv : env < s.frames.size) (name : String) (v : Value) :
    s.Rebinds (s.define env name v) env name v where
  size := Array.size_modify
  parent := parent?_define env name v
  entry := by rw [binding?_define henv, if_pos ⟨rfl, rfl⟩]
  other f n h := by rw [binding?_define henv, if_neg h]

theorem binding?_addFrame (frame : Frame) (f : FrameId) (n : String) :
    (s.addFrame frame).binding? f n =
    if f = s.frames.size then Bindings.get? frame.bindings n else s.binding? f n := by
  unfold binding? addFrame
  rw [Array.getElem?_push]
  split_ifs <;> rfl

theorem parent?_addFrame (frame : Frame) (f : FrameId) : (s.addFrame frame).parent? f =
    if f = s.frames.size then frame.parent else s.parent? f := by
  unfold parent? addFrame
  rw [Array.getElem?_push]
  split_ifs <;> rfl

theorem binding?_eq_none {env : FrameId} (h : s.frames.size ≤ env) (name : String) :
    s.binding? env name = none := by
  unfold binding?
  rw [Array.getElem?_eq_none h]
  rfl

theorem lt_size_of_binding? {env : FrameId} {name : String} {v : Value}
    (h : s.binding? env name = some v) : env < s.frames.size := by
  by_contra hge
  rw [binding?_eq_none (Nat.not_lt.1 hge)] at h
  cases h

theorem after_assign (env : FrameId) (name : String) (v : Value) : s.after (.assign env name v) =
    match s.lookFor env name with
    | some f => s.define f name v
    | none => s := by
  simp only [after, perform, assign]
  cases s.lookFor env name <;> rfl

theorem after_extend (env : FrameId) (procedure : String) (params : Value)
    (formals : Formals String) (accepted : Formals.parse? params = some formals)
    (args : List Value) :
    s.after (.extend env procedure params formals accepted args) =
      if formals.arity.accepts args.length then s.bindArguments env formals args else s := by
  simp only [after, perform, extend_of_parse? accepted]
  split_ifs <;> rfl

end Store

/-! ### A history and its store -/

namespace FrameHistory

variable {ops : FrameHistory} {s s' : Store}

/-- What a store has in common with a history. -/
structure Agrees (ops : FrameHistory) (s : Store) : Prop where
  size_eq : s.frames.size = size ops
  clock_eq : s.clock = stamp ops
  parent_lt : ∀ env p, s.parent? env = some p → p < env
  root_eq : ∀ env, env < size ops → s.parent? env = none → env = Store.global
  path_eq : ∀ env, env < size ops → path ops env = env :: ((s.parent? env).map (path ops)).getD []
  binding_eq : ∀ env name, s.binding? env name = value? ops env name

theorem isSome_of_nearest {env f : FrameId} {name : String} (h : nearest ops env name = some f) :
    (value? ops f name).isSome = true :=
  List.find?_some (p := fun f => (value? ops f name).isSome) h

theorem path_cons_of_lt {env : FrameId} (henv : env < size ops) (op : FrameOperation) :
    path (op :: ops) env = path ops env := by
  rw [path, if_neg fun h => Nat.ne_of_lt henv h.2]

namespace Agrees

/-- **The walk outward follows the path** up to the nearest frame that binds the name. -/
theorem find (h : Agrees ops s) {env : FrameId} (henv : env < size ops) (name : String) :
    s.find env name = (nearest ops env name).bind fun f => (value? ops f name).map (f, ·) := by
  induction env using Nat.strongRecOn with
  | _ env ih =>
    rw [Store.find_eq, h.binding_eq, nearest, h.path_eq env henv, List.find?_cons]
    cases hvalue : value? ops env name with
    | some v => simp [hvalue]
    | none =>
      cases hparent : s.parent? env with
      | none => rfl
      | some p =>
        have hlt : p < env := h.parent_lt env p hparent
        simp only [Option.map_none, Option.none_or, Option.bind_some, if_pos hlt,
          Option.isSome_none,
          Option.map_some, Option.getD_some]
        exact ih p hlt (hlt.trans henv)

theorem lookFor (h : Agrees ops s) {env : FrameId} (henv : env < size ops) (name : String) :
    s.lookFor env name = nearest ops env name := by
  rw [Store.lookFor, h.find henv]
  cases hnearest : nearest ops env name with
  | none => rfl
  | some f =>
    obtain ⟨v, hv⟩ := Option.isSome_iff_exists.1 (isSome_of_nearest hnearest)
    simp [hv]

/-- The path leads along the parents to the root. -/
theorem isPath (h : Agrees ops s) {env : FrameId} (henv : env < size ops) :
    s.IsPath env (path ops env) ∧ (path ops env).getLast? = some Store.global := by
  induction env using Nat.strongRecOn with
  | _ env ih =>
    rw [h.path_eq env henv]
    cases hparent : s.parent? env with
    | none =>
      obtain rfl := h.root_eq env henv hparent
      exact ⟨.root hparent, rfl⟩
    | some p =>
      have hlt : p < env := h.parent_lt env p hparent
      obtain ⟨hpath, hlast⟩ := ih p hlt (hlt.trans henv)
      refine ⟨.outward hparent hpath, ?_⟩
      simp [List.getLast?_cons, hlast]

/-- An operation that adds no frame. -/
theorem kept (h : Agrees ops s) {op : FrameOperation} (hop : op.addsFrame = false)
    (hstamp : stamp (op :: ops) = stamp ops) (hsize : s'.frames.size = s.frames.size)
    (hclock : s'.clock = s.clock) (hparent : ∀ f, s'.parent? f = s.parent? f)
    (hbinding : ∀ f n, s'.binding? f n =
      (op.entry? (size ops) (stamp ops) (nearest ops) f n).or (s.binding? f n)) :
        Agrees (op :: ops) s' := by
  have hcount : size (op :: ops) = size ops := by simp [size, hop]
  have hpath : path (op :: ops) = path ops := by
    funext f
    simp [path, hop]
  refine ⟨by rw [hsize, hcount, h.size_eq], by rw [hclock, hstamp, h.clock_eq], fun f p hp => ?_,
    fun f hf hp => ?_, fun f hf => ?_, fun f n => ?_⟩
  · rw [hparent] at hp
    exact h.parent_lt f p hp
  · rw [hparent] at hp
    exact h.root_eq f (hcount ▸ hf) hp
  · rw [hcount] at hf
    rw [hpath, hparent, h.path_eq f hf]
  · rw [value?_cons, hbinding, h.binding_eq]

/-- An operation that adds a frame. -/
theorem added (h : Agrees ops s) {op : FrameOperation} (bindings : Bindings)
    (hop : op.addsFrame = true) (henv : op.env < size ops) (hclock : s'.clock = stamp (op :: ops))
    (hs : s'.frames = (s.addFrame ⟨some op.env, bindings⟩).frames)
    (hentry : ∀ f n, op.entry? (size ops) (stamp ops) (nearest ops) f n =
      if f = size ops then Bindings.get? bindings n else none) : Agrees (op :: ops) s' := by
  have hcount : size (op :: ops) = size ops + 1 := by simp [size, hop]
  have hparent (f : FrameId) :
      s'.parent? f = if f = size ops then some op.env else s.parent? f := by
    rw [← h.size_eq, ← Store.parent?_addFrame ⟨some op.env, bindings⟩ f, Store.parent?, hs]
    rfl
  have hbinding (f : FrameId) (n : String) : s'.binding? f n =
      if f = size ops then Bindings.get? bindings n else s.binding? f n := by
    rw [← h.size_eq, ← Store.binding?_addFrame ⟨some op.env, bindings⟩ f n, Store.binding?, hs]
    rfl
  refine ⟨by rw [hs, hcount, ← h.size_eq]; exact Array.size_push _, hclock, fun f p hp => ?_,
    fun f hf hp => ?_, fun f hf => ?_, fun f n => ?_⟩
  · rw [hparent] at hp
    split_ifs at hp with hnew
    · cases hp
      rw [hnew]
      exact henv
    · exact h.parent_lt f p hp
  · rw [hparent] at hp
    split_ifs at hp with hnew
    have hlt : f < size ops := Nat.lt_of_le_of_ne (by omega) hnew
    exact h.root_eq f hlt hp
  · rw [hparent]
    by_cases hnew : f = size ops
    · rw [if_pos hnew, path, if_pos ⟨hop, hnew⟩, Option.map_some, Option.getD_some,
        path_cons_of_lt henv]
    · have hlt : f < size ops := by omega
      rw [if_neg hnew, path_cons_of_lt hlt, h.path_eq f hlt]
      cases hp : s.parent? f with
      | none => rfl
      | some p =>
        have hp' : p < size ops := (h.parent_lt f p hp).trans hlt
        rw [Option.map_some, Option.map_some, path_cons_of_lt hp']
  · rw [value?_cons, hentry, hbinding, ← h.binding_eq]
    split_ifs with hnew
    · -- nothing has been bound in the frame before it was there
      rw [Store.binding?_eq_none (by rw [h.size_eq, hnew]), Option.or_none]
    · rfl

/-- **One operation** keeps the agreement of a store and a history. -/
theorem step (h : Agrees ops s) {op : FrameOperation} (henv : op.env < size ops) :
    Agrees (op :: ops) (s.after op) := by
  cases op with
  | newFrame env =>
    refine h.added [] rfl henv h.clock_eq rfl fun f n => ?_
    exact (ite_self none).symm
  | extend env procedure params formals accepted args =>
    rw [Store.after_extend]
    split_ifs with hcount
    · refine h.added (formals.bindings s.clock args) hcount henv ?_ rfl fun f n => ?_
      · rw [stamp, if_pos hcount, ← h.clock_eq]
        rfl
      · simp only [FrameOperation.entry?, hcount, true_and, Formals.get?_bindings accepted,
          h.clock_eq]
    · refine h.kept (Bool.not_eq_true _ ▸ hcount) ?_ rfl rfl (fun _ => rfl) fun f n => ?_
      · rw [stamp, if_neg hcount]
      · simp [FrameOperation.entry?, hcount]
  | define env name v =>
    have hlt : env < s.frames.size := h.size_eq ▸ henv
    have hs := Store.rebinds_define hlt name v
    exact h.kept rfl rfl hs.size rfl hs.parent hs.binding
  | assign env name v =>
    have hlookFor : s.lookFor env name = nearest ops env name := h.lookFor henv name
    rw [Store.after_assign, hlookFor]
    cases hnearest : nearest ops env name with
    | none =>
      refine h.kept rfl rfl rfl rfl (fun _ => rfl) fun f n => ?_
      simp [FrameOperation.entry?, hnearest]
    | some f =>
      obtain ⟨v', hv'⟩ := Option.isSome_iff_exists.1 (isSome_of_nearest hnearest)
      rw [← h.binding_eq] at hv'
      have hs := Store.rebinds_define (Store.lt_size_of_binding? hv') name v
      refine h.kept rfl rfl hs.size rfl hs.parent fun g n => ?_
      rw [hs.binding, FrameOperation.entry?, hnearest]
      simp only [Option.some.injEq, eq_comm]

end Agrees

theorem agrees_bare : Agrees [] .bare := by
  have hframe (env : FrameId) :
      Store.bare.frames[env]? = if env = 0 then some ⟨none, []⟩ else none := by
    cases env <;> rfl
  have hparent (env : FrameId) : Store.bare.parent? env = none := by
    rw [Store.parent?, hframe]
    split_ifs <;> rfl
  refine ⟨rfl, rfl, fun env p hp => ?_, fun env henv _ => Nat.lt_one_iff.1 henv, fun env _ => ?_,
    fun env name => ?_⟩
  · rw [hparent] at hp
    cases hp
  · rw [hparent]
    rfl
  · rw [Store.binding?, hframe]
    split_ifs <;> rfl

/-- **A whole history** agrees with the store that it leads to. -/
theorem agrees_replay (h : IsValid ops) : Agrees ops (replay ops) := by
  induction ops with
  | nil => exact agrees_bare
  | cons op ops ih => exact (ih h.2).step h.1

end FrameHistory

open FrameHistory in
/-- **Look-ups follow the history.**  After any history of operations from one empty frame, seen
from any frame, a name belongs to the nearest frame on the path to the root in which it has been
bound, and its value there is that of the latest operation on this entry; if there is none, the name
is unbound.  A definition changes one entry, namely in the frame it is called on, and an assignment
changes one entry, namely in the nearest frame that binds the name, or fails.  An extension fails if
the number of arguments is not accepted.  What fails changes nothing. -/
theorem lookup_follows_history {ops : FrameHistory} (h : IsValid ops) {env : FrameId}
    (henv : env < size ops) (name : String) :
    (replay ops).IsPath env (path ops env) ∧ (path ops env).getLast? = some Store.global ∧
    (replay ops).lookFor env name = nearest ops env name ∧
    (∀ f, nearest ops env name = some f →
      ∃ v, value? ops f name = some v ∧ (replay ops).lookup env name = .ok v) ∧
    (nearest ops env name = none → (replay ops).lookup env name = .error (.unbound name)) ∧
    (∀ v, (replay ops).Rebinds (replay (.define env name v :: ops)) env name v) ∧
    (∀ v f, nearest ops env name = some f →
      (replay ops).assign env name v = .ok (replay (.assign env name v :: ops)) ∧
        (replay ops).Rebinds (replay (.assign env name v :: ops)) f name v) ∧
    (∀ v, nearest ops env name = none → (replay ops).assign env name v = .error (.unbound name) ∧
      replay (.assign env name v :: ops) = replay ops) ∧
    (∀ procedure params formals accepted args, formals.arity.accepts args.length = false →
      (replay ops).extend env procedure params args =
        .error (.error (.argumentCount procedure formals.arity args.length)) ∧
      replay (.extend env procedure params formals accepted args :: ops) = replay ops) := by
  have hagrees := agrees_replay h
  have hlookFor := hagrees.lookFor henv name
  have hfind := hagrees.find henv name
  have hlt : env < (replay ops).frames.size := hagrees.size_eq ▸ henv
  have hpath := hagrees.isPath henv
  refine ⟨hpath.1, hpath.2, hlookFor, fun f hf => ?_, fun hnone => ?_, fun v => ?_,
    fun v f hf => ?_,
    fun v hnone => ?_, fun procedure params formals accepted args hcount => ?_⟩
  · obtain ⟨v, hv⟩ := Option.isSome_iff_exists.1 (isSome_of_nearest hf)
    refine ⟨v, hv, ?_⟩
    rw [Store.lookup, hfind, hf]
    simp [hv]
  · rw [Store.lookup, hfind, hnone]
    rfl
  · exact Store.rebinds_define hlt name v
  · obtain ⟨w, hw⟩ := Option.isSome_iff_exists.1 (isSome_of_nearest hf)
    rw [← hagrees.binding_eq] at hw
    rw [replay, Store.after_assign, Store.assign, hlookFor, hf]
    exact ⟨rfl, Store.rebinds_define (Store.lt_size_of_binding? hw) name v⟩
  · rw [replay, Store.after_assign, Store.assign, hlookFor, hnone]
    exact ⟨rfl, rfl⟩
  · rw [replay, Store.after_extend, Store.extend_of_parse? accepted, hcount]
    exact ⟨rfl, rfl⟩

/-- A frame 1 on the root binds `x`, a frame 2 on it is empty.  Seen from frame 2, `x` belongs to
frame 1 and an assignment changes it there; after a definition in frame 2 it belongs to that
frame. -/
theorem lookup_follows_history_shadowed :
    let params : Value := .pair ⟨0, 0⟩ (.symbol "x") .nil
    let ops : FrameHistory := [.assign 2 "x" (.string "b"), .newFrame 1,
      .extend 0 "" params ⟨["x"], none⟩ rfl [.string "a"]]
    (FrameHistory.replay ops).lookFor 2 "x" = some 1 ∧
      (FrameHistory.replay ops).lookup 2 "x" = .ok (.string "b") ∧
      (FrameHistory.replay (.define 2 "x" .nil :: ops)).lookFor 2 "x" = some 2 := by
  intro params ops
  have hvalid : FrameHistory.IsValid ops := ⟨by decide, by decide, by decide, trivial⟩
  have hvalid' : FrameHistory.IsValid (.define 2 "x" .nil :: ops) := ⟨by decide, hvalid⟩
  obtain ⟨-, -, hlookFor, hlookup, -⟩ := @lookup_follows_history ops hvalid 2 (by decide) "x"
  obtain ⟨-, -, hlookFor', -⟩ := @lookup_follows_history _ hvalid' 2 (by decide) "x"
  have hnearest : FrameHistory.nearest ops 2 "x" = some 1 := by decide
  obtain ⟨v, hv, hok⟩ := hlookup 1 hnearest
  cases hv
  exact ⟨hlookFor.trans hnearest, hok, hlookFor'.trans (by decide)⟩

end Scheme
