import Mathlib
import Scheme.Eval.Store

/-!
# Binding parameters

A call walks the datum that lists the parameters of a closure.  It breaks off at a parameter that is
no symbol and at one that has no argument.  Where the datum lists symbols it does neither: either
the number of arguments is not accepted, or each name is bound to the argument at its place.

* `Formals.bindings`, `Store.bindArguments`: the bindings of names to arguments, and the frame of a
  call;
* `Formals.bindAll_of_names?`: the walk along the parameters comes to these bindings;
* `Store.bindParameters_of_parse?`, `Store.extend_of_parse?`: the bindings of parameters that are
  accepted, and the frame with them;
* `Store.frames_call_self`, `Store.frames_call`: the frames after a call.
-/

namespace Scheme

/-! ### Numbers of arguments -/

namespace Arity

theorem accepts_atLeast (k m : Nat) : (atLeast k).accepts m = true ↔ k ≤ m := by
  simp [accepts, atLeast]

theorem accepts_exactly (k m : Nat) : (exactly k).accepts m = true ↔ m = k := by
  have hcast : ((k : Int) ≤ (m : Int) ∧ m ≤ k) ↔ m = k := by omega
  simpa [accepts, exactly] using hcast

theorem refuses_atLeast (k m : Nat) : (atLeast k).accepts m = false ↔ m < k := by
  rw [← Bool.not_eq_true, accepts_atLeast, Nat.not_le]

end Arity

/-! ### Names and their arguments -/

namespace Formals

/-- The bindings of names to arguments, of which there are enough.  Further arguments are listed
under the given stamp. -/
def bindings (stamp : Nat) (f : Formals String) (args : List Value) : Bindings :=
  let bound := (f.required.zip args).foldl (fun b (n, v) => Bindings.set n v b) []
  match f.rest with
  | none => bound
  | some name => Bindings.set name (Value.list stamp (args.drop f.required.length) .nil) bound

/-- As many arguments as there are parameters are accepted, and more if there is a parameter for
them. -/
theorem accepts_arity_iff {α : Type} (f : Formals α) (n : Nat) :
    f.arity.accepts n = true ↔ n = f.required.length ∨ f.required.length ≤ n ∧
    f.rest.isSome = true := by
  unfold arity
  by_cases hrest : f.rest.isSome = true
  · rw [if_pos hrest, Arity.accepts_atLeast]
    constructor
    · exact fun h => Or.inr ⟨h, hrest⟩
    · rintro (h | h)
      · exact h.ge
      · exact h.1
  · rw [if_neg hrest, Arity.accepts_exactly]
    exact (or_iff_left fun h => hrest h.2).symm

theorem le_of_accepts_arity {α : Type} {f : Formals α} {n : Nat} (h : f.arity.accepts n = true) :
    f.required.length ≤ n := by
  obtain h | h := (accepts_arity_iff f n).1 h
  · exact h.ge
  · exact h.1

theorem arity_eq {α : Type} (f : Formals α) :
    f.arity = ⟨f.required.length, if f.rest.isSome then none else some f.required.length⟩ := by
  unfold arity
  split_ifs <;> rfl

/-- The names of parameters are those of the required ones and that of the one for further
arguments. -/
theorem names?_eq_some_iff {f : Formals Value} {g : Formals String} : f.names? = some g ↔
    f.required.mapM Datum.symbol? = some g.required ∧
      (f.rest = none ∧ g.rest = none ∨ ∃ r name, f.rest = some r ∧ r.symbol? = some name ∧
        g.rest = some name) := by
  obtain ⟨required, rest⟩ := g
  unfold names?
  cases f.required.mapM Datum.symbol? with
  | none => exact iff_of_false nofun nofun
  | some names =>
    cases f.rest with
    | none => simp [eq_comm]
    | some r => cases hr : r.symbol? <;> simp [hr, eq_comm]

theorem forall₂_of_mapM {α β : Type} {p : α → Option β} {xs : List α} {ys : List β}
    (h : xs.mapM p = some ys) : List.Forall₂ (fun x y => p x = some y) xs ys := by
  induction xs generalizing ys with
  | nil =>
    cases h
    exact .nil
  | cons x xs ih =>
    rw [List.mapM_cons] at h
    obtain ⟨y, hy, h⟩ := Option.bind_eq_some_iff.1 h
    obtain ⟨zs, hzs, h⟩ := Option.bind_eq_some_iff.1 h
    cases h
    exact .cons hy (ih hzs)

/-- The names of parameters take as many arguments as the parameters. -/
theorem arity_of_names? {f : Formals Value} {g : Formals String} (h : f.names? = some g) :
    f.arity = g.arity := by
  obtain ⟨hrequired, hrest⟩ := names?_eq_some_iff.1 h
  have hsome : f.rest.isSome = g.rest.isSome := by
    obtain ⟨hf, hg⟩ | ⟨r, name, hf, -, hg⟩ := hrest <;> rw [hf, hg] <;> rfl
  rw [arity_eq, arity_eq, (forall₂_of_mapM hrequired).length_eq, hsome]

/-- Symbols are bound to the arguments at their places. -/
theorem bindRequired_of_forall₂ {params : List Value} {names : List String} {args : List Value}
    {index : Nat} (h : List.Forall₂ (fun p name => p.symbol? = some name) params names)
    (hlen : index + params.length ≤ args.length) (b : Bindings) : bindRequired args index params b =
      .ok ((names.zip (args.drop index)).foldl (fun b (n, v) => Bindings.set n v b) b) := by
  induction h generalizing index b with
  | nil => rfl
  | @cons p name params names hname _ ih =>
    rw [List.length_cons] at hlen
    have hlt : index < args.length := by omega
    have hsymbol : Checked.symbol p = .ok name := by rw [Checked.symbol, hname]
    have hitem : Checked.item args index = .ok args[index] :=
      Checked.item_of_getElem? (List.getElem?_eq_getElem hlt)
    rw [bindRequired, hsymbol, hitem, ← List.cons_getElem_drop_succ (h := hlt), List.zip_cons_cons,
      List.foldl_cons]
    exact ih (by omega) _

/-- **The walk along parameters** that are symbols binds their names. -/
theorem bindAll_of_names? {f : Formals Value} {g : Formals String} (h : f.names? = some g)
    {args : List Value} (hcount : f.required.length ≤ args.length) (stamp : Nat) :
    f.bindAll stamp args = .ok (g.bindings stamp args) := by
  obtain ⟨hrequired, hrest⟩ := names?_eq_some_iff.1 h
  unfold bindAll bindings
  rw [bindRequired_of_forall₂ (forall₂_of_mapM hrequired) (by rwa [Nat.zero_add]), List.drop_zero]
  obtain ⟨hf, hg⟩ | ⟨r, name, hf, hname, hg⟩ := hrest
  · rw [hf, hg]
    rfl
  · have hsymbol : Checked.symbol r = .ok name := by rw [Checked.symbol, hname]
    rw [hf, hg]
    show (Checked.sliceFrom args f.required.length >>= fun more => _) = _
    rw [Checked.sliceFrom_of_le hcount, hsymbol, (forall₂_of_mapM hrequired).length_eq]
    rfl

/-- Parameters that are accepted are symbols. -/
theorem names?_of_parse? {params : Value} {f : Formals String} (h : parse? params = some f) :
    (ofValue params).names? = some f :=
  (Option.filter_eq_some_iff.1 h).1

end Formals

/-! ### The frame of a call -/

namespace Store

variable {s s' : Store} {env other : FrameId} {f : Frame}

/-- Add the frame on `env` that binds names to arguments. -/
def bindArguments (s : Store) (env : FrameId) (formals : Formals String) (args : List Value) :
    Store :=
  s.addCall env (formals.bindings s.clock args)

/-- **Parameters that are accepted** are bound, if the number of arguments is accepted. -/
theorem bindParameters_of_parse? {params : Value} {formals : Formals String}
    (h : Formals.parse? params = some formals) (s : Store) (name : String) (args : List Value) :
    s.bindParameters name params args =
      if formals.arity.accepts args.length then .ok (formals.bindings s.clock args)
      else .error (.error (.argumentCount name formals.arity args.length)) := by
  have hnames := Formals.names?_of_parse? h
  unfold bindParameters arityError?
  dsimp only
  rw [Formals.arity_of_names? hnames]
  by_cases hcount : formals.arity.accepts args.length = true
  · have hle : (Formals.ofValue params).required.length ≤ args.length := by
      rw [← Formals.arity_of_names? hnames] at hcount
      exact Formals.le_of_accepts_arity hcount
    rw [if_pos hcount, if_pos hcount]
    exact Formals.bindAll_of_names? hnames hle s.clock
  · rw [if_neg hcount, if_neg hcount]

/-- The frame for parameters that are accepted. -/
theorem extend_of_parse? {params : Value} {formals : Formals String}
    (h : Formals.parse? params = some formals) (s : Store) (env : FrameId) (name : String)
    (args : List Value) : s.extend env name params args =
      if formals.arity.accepts args.length then .ok (s.bindArguments env formals args)
      else .error (.error (.argumentCount name formals.arity args.length)) := by
  rw [extend, bindParameters_of_parse? h]
  split_ifs <;> rfl

/-- A call gets a frame. -/
theorem frames_call_self (s : Store) (env : FrameId) (formals : Formals String) (args : List Value)
    (event : Event) : ((s.bindArguments env formals args).record event).frames[s.nextFrame]? =
      some ⟨some env, formals.bindings s.clock args⟩ :=
  Array.getElem?_push_size

/-- A call keeps the frames that are there. -/
theorem frames_call (h : s.frames[other]? = some f) (env : FrameId) (formals : Formals String)
    (args : List Value) (event : Event) :
    ((s.bindArguments env formals args).record event).frames[other]? = some f :=
  frames_addFrame (s := s.tick) h _

end Store

end Scheme
