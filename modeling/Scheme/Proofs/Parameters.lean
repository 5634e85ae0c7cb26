import Mathlib
import Scheme.Proofs.FrameHistory
import Scheme.Proofs.Primitives

/-!
# Parameters and arguments

The parameters of a procedure are listed by a datum: a symbol, or a list of symbols that may end in
one more symbol, all of them distinct.  A procedure is called in a new frame, which binds the
parameters to arguments if their number is accepted.

* `Formals.ListedBy`: the parameters that a datum lists;
* `Formals.parse?_eq_some_iff`: the data that are accepted as parameters;
* `Store.find_congr`, `Store.find_nextFrame`: look-ups when there is one more frame;
* `Store.BindsParameters`: the new frame;
* `parameters_bound`: the main result.
-/

namespace Scheme

/-! ### The data that list parameters -/

namespace Formals

/-- The datum lists the parameters: their symbols one after the other, and at its end the symbol of
the parameter for all further arguments, if there is one. -/
inductive ListedBy : Formals String → Value → Prop where
  | none : ListedBy ⟨[], none⟩ .nil
  | rest (name : String) : ListedBy ⟨[], some name⟩ (.symbol name)
  | cons {f : Formals String} {d : Value} (label : Label) (name : String) (h : ListedBy f d) :
      ListedBy ⟨name :: f.required, f.rest⟩ (.pair label (.symbol name) d)

theorem names?_cons (v : Value) (vs : List Value) (rest : Option Value) :
    names? ⟨v :: vs, rest⟩ =
      v.symbol?.bind fun name => (names? ⟨vs, rest⟩).map fun f => ⟨name :: f.required, f.rest⟩ := by
  unfold names?
  rw [List.mapM_cons]
  cases v.symbol? with
  | none => rfl
  | some name =>
    cases vs.mapM Datum.symbol? with
    | none => rfl
    | some names =>
      cases rest with
      | none => rfl
      | some r =>
        show (r.symbol?.bind _) = (r.symbol?.bind _).map _
        cases r.symbol? <;> rfl

theorem ofValue_pair (l : Label) (a d : Value) :
    ofValue (.pair l a d) = ⟨a :: (ofValue d).required, (ofValue d).rest⟩ := rfl

theorem symbol?_eq_some {v : Value} {name : String} (h : v.symbol? = some name) :
    v = .symbol name := by
  cases v with
  | symbol s =>
    cases h
    rfl
  | _ => cases h

/-- A datum lists the parameters whose names are read off its elements and its end. -/
theorem names?_ofValue_iff : (d : Value) → (f : Formals String) →
    ((ofValue d).names? = some f ↔ f.ListedBy d)
  | .pair l a d, f => by
    rw [ofValue_pair, names?_cons]
    constructor
    · intro h
      obtain ⟨name, hname, h⟩ := Option.bind_eq_some_iff.1 h
      obtain ⟨g, hg, rfl⟩ := Option.map_eq_some_iff.1 h
      rw [symbol?_eq_some hname]
      exact .cons l name ((names?_ofValue_iff d g).1 hg)
    · intro h
      cases h with
      | cons _ name h =>
        rw [(names?_ofValue_iff d _).2 h]
        rfl
  | .nil, f => by
    show some ⟨[], none⟩ = some f ↔ _
    constructor
    · rintro ⟨⟩
      exact .none
    · rintro ⟨⟩
      rfl
  | .symbol s, f => by
    show some ⟨[], some s⟩ = some f ↔ _
    constructor
    · rintro ⟨⟩
      exact .rest s
    · rintro ⟨⟩
      rfl
  | .boolean _, _ | .char _, _ | .string _, _ | .number _, _
  | .vector _ _, _ | .bytes _ _, _ | .object _, _ =>
    iff_of_false nofun nofun

/-- **The data that are accepted as parameters** are those that list distinct names. -/
theorem parse?_eq_some_iff {d : Value} {f : Formals String} :
    parse? d = some f ↔ f.ListedBy d ∧ f.all.Nodup := by
  unfold parse?
  rw [Option.filter_eq_some_iff, names?_ofValue_iff, areDistinct_iff_nodup]

/-! ### Parameters and their arguments -/

/-- The value of a key that stands once among the keys. -/
theorem lookup_zip {keys : List String} (h : keys.Nodup) {values : List Value} {i : Nat}
    {k : String} (hk : keys[i]? = some k) : (keys.zip values).lookup k = values[i]? := by
  induction keys generalizing values i with
  | nil => cases hk
  | cons key keys ih =>
    rw [List.nodup_cons] at h
    cases values with
    | nil => rfl
    | cons v values =>
      rw [List.zip_cons_cons, List.lookup_cons]
      cases i with
      | zero =>
        cases hk
        rw [beq_self_eq_true]
        rfl
      | succ i =>
        have hne : k ≠ key := by
          rintro rfl
          exact h.1 (List.mem_of_getElem? hk)
        rw [beq_eq_false_iff_ne.2 hne]
        exact ih h.2 hk

theorem lookup_zip_of_not_mem {keys : List String} {k : String} (h : k ∉ keys)
    (values : List Value) :
    (keys.zip values).lookup k = none := by
  rw [List.lookup_eq_none_iff]
  intro p hp
  have hne : k ≠ p.1 := by
    rintro rfl
    exact h (List.of_mem_zip hp).1
  exact bne_iff_ne.2 hne

section Arguments

variable {f : Formals String} (h : f.all.Nodup) (stamp : Nat) (args : List Value)

include h in
theorem argument?_required {i : Nat} {name : String} (hname : f.required[i]? = some name) :
    f.argument? stamp args name = args[i]? := by
  rw [all, List.nodup_append] at h
  have hne : f.rest ≠ some name := by
    intro hrest
    rw [hrest] at h
    exact h.2.2 name (List.mem_of_getElem? hname) name (List.mem_singleton_self _) rfl
  rw [argument?, if_neg hne]
  exact lookup_zip h.1 hname

theorem argument?_rest {name : String} (hname : f.rest = some name) :
    f.argument? stamp args name = some (Value.list stamp (args.drop f.required.length) .nil) :=
  if_pos hname

theorem argument?_other {name : String} (hname : name ∉ f.all) :
    f.argument? stamp args name = none := by
  rw [all, List.mem_append, not_or, Option.mem_toList] at hname
  rw [argument?, if_neg hname.2]
  exact lookup_zip_of_not_mem hname.1 args

end Arguments

end Formals

/-! ### Look-ups when there is one more frame -/

namespace Store

variable {s s' : Store}

/-- A look-up sees the frames from its own one downward. -/
theorem find_congr {size : Nat} (h : ∀ f < size, s'.frames[f]? = s.frames[f]?) {env : FrameId}
    (henv : env < size) (name : String) : s'.find env name = s.find env name := by
  induction env using Nat.strong_induction_on with
  | _ env ih =>
    rw [find_eq, find_eq s, binding?, binding?, parent?, parent?, h env henv]
    congr 2
    funext p
    by_cases hp : p < env
    · rw [if_pos hp, if_pos hp, ih p hp (hp.trans henv)]
    · rw [if_neg hp, if_neg hp]

/-- A look-up in a new frame of a name that it does not bind goes on from the frame that it
extends. -/
theorem find_nextFrame {env : FrameId} {b : Bindings} (h : s'.frames = s.frames.push ⟨some env, b⟩)
    {name : String} (hb : Bindings.get? b name = none) :
    s'.find s.nextFrame name = s.find env name := by
  rw [find, h, nextFrame, Array.getElem?_push_size]
  simp only [hb]
  by_cases henv : env < s.frames.size
  · rw [if_pos henv]
    refine find_congr (fun f hf => ?_) henv name
    rw [h, Array.getElem?_push, if_neg hf.ne]
  · rw [if_neg henv, find, Array.getElem?_eq_none (Nat.not_lt.1 henv)]

/-- The second store has one more frame than the first.  It extends `env` and binds the parameters,
and no other name, to their arguments; all other names mean what they mean in `env`. -/
structure BindsParameters (s s' : Store) (env : FrameId) (f : Formals String) (args : List Value) :
    Prop where
  size : s'.frames.size = s.frames.size + 1
  kept : ∀ (other : FrameId) (frame : Frame), s.frames[other]? = some frame →
    s'.frames[other]? = some frame
  parent : s'.parent? s.nextFrame = some env
  required : ∀ (i : Nat) (name : String), f.required[i]? = some name →
    ∃ v, args[i]? = some v ∧ s'.binding? s.nextFrame name = some v
  rest : ∀ name, f.rest = some name → ∃ v, v.elements? = some (args.drop f.required.length) ∧
    s'.binding? s.nextFrame name = some v
  other : ∀ name ∉ f.all, s'.binding? s.nextFrame name = none ∧
    s'.find s.nextFrame name = s.find env name

/-- **The frame of a call.** -/
theorem bindsParameters_bindArguments {params : Value} {f : Formals String}
    (h : Formals.parse? params = some f) {args : List Value}
    (hcount : f.required.length ≤ args.length) (s : Store) (env : FrameId) :
    s.BindsParameters (s.bindArguments env f args) env f args := by
  have hnodup := Formals.nodup_of_parse? h
  have hget := Formals.get?_bindings h s.clock args
  have hbinding (name : String) : (s.bindArguments env f args).binding? s.nextFrame name =
      f.argument? s.clock args name := by
    rw [← hget name]
    exact (binding?_addFrame (s := s.tick) _ _ name).trans (if_pos rfl)
  exact {
    size := Array.size_push _
    kept := fun other frame hframe => frames_addFrame (s := s.tick) hframe _
    parent := (parent?_addFrame (s := s.tick) _ _).trans (if_pos rfl)
    required := by
      intro i name hname
      have hi : i < args.length := lt_of_lt_of_le (List.getElem?_eq_some_iff.1 hname).1 hcount
      refine ⟨args[i], List.getElem?_eq_getElem hi, ?_⟩
      rw [hbinding, Formals.argument?_required hnodup _ _ hname, List.getElem?_eq_getElem hi]
    rest := by
      intro name hname
      refine ⟨_, Value.elements?_list s.clock _, ?_⟩
      rw [hbinding, Formals.argument?_rest _ _ hname]
    other := by
      intro name hname
      have hnone := Formals.argument?_other s.clock args hname
      refine ⟨by rw [hbinding, hnone], ?_⟩
      exact find_nextFrame rfl ((hget name).trans hnone) }

end Store

/-- **Parameters are bound to arguments.**  The data that are accepted as parameters are the symbols
and the lists, proper or dotted, of distinct symbols, the end included.  A frame that binds them to
arguments is made if and only if there are as many arguments as parameters, or more if the end is a
symbol, which then stands for the list of the further ones.  Otherwise the failure tells the name,
the accepted numbers and the actual one. -/
theorem parameters_bound (params : Value) (f : Formals String) :
    (Formals.parse? params = some f ↔ f.ListedBy params ∧ f.all.Nodup) ∧
      (Formals.parse? params = some f →
        ((Formals.ofValue params).names? = some f ∧ (Formals.ofValue params).arity = f.arity) ∧
        ∀ (s : Store) (env : FrameId) (name : String) (args : List Value),
          ((∃ s', s.extend env name params args = .ok s') ↔
            args.length = f.required.length ∨
              f.required.length ≤ args.length ∧ f.rest.isSome = true) ∧
          (∀ s', s.extend env name params args = .ok s' → s.BindsParameters s' env f args) ∧
          (∀ failure, s.extend env name params args = .error failure →
            failure = .error
              { kind := .argumentCount, name := name, got := args.length,
                arity := ⟨f.required.length,
                  if f.rest.isSome then none else some f.required.length⟩ })) := by
  refine ⟨Formals.parse?_eq_some_iff, fun h => ⟨⟨?_, ?_⟩, fun s env name args => ?_⟩⟩
  · exact Formals.names?_of_parse? h
  · exact Formals.arity_of_names? (Formals.names?_of_parse? h)
  · rw [← Formals.accepts_arity_iff, ← Formals.arity_eq, Store.extend_of_parse? h]
    by_cases hcount : f.arity.accepts args.length = true
    · rw [if_pos hcount]
      refine ⟨iff_of_true ⟨_, rfl⟩ hcount, ?_, nofun⟩
      rintro s' ⟨⟩
      exact Store.bindsParameters_bindArguments h (Formals.le_of_accepts_arity hcount) s env
    · rw [if_neg hcount]
      refine ⟨iff_of_false nofun hcount, nofun, ?_⟩
      rintro failure ⟨⟩
      rfl

/-- The parameters `(a . more)` take three arguments: the first alone and the other two as a
list. -/
theorem parameters_bound_dotted :
    let params : Value := .pair ⟨0, 0⟩ (.symbol "a") (.symbol "more")
    let f : Formals String := ⟨["a"], some "more"⟩
    let s := Store.initial false
    Formals.parse? params = some f ∧
      (∃ s' v, s.extend Store.global "g" params [.string "x", .string "y", .string "z"] = .ok s' ∧
        s'.binding? s.nextFrame "a" = some (.string "x") ∧
        s'.binding? s.nextFrame "more" = some v ∧ v.elements? = some [.string "y", .string "z"]) ∧
      ∀ s', s.extend Store.global "g" params [] ≠ .ok s' := by
  intro params f s
  have hparse : Formals.parse? params = some f := rfl
  have hbound := ((parameters_bound params f).2 hparse).2 s Store.global "g"
  refine ⟨hparse, ?_, fun s' hs' => ?_⟩
  · obtain ⟨hends, hbinds, -⟩ := hbound [.string "x", .string "y", .string "z"]
    obtain ⟨s', hs'⟩ := hends.2 (Or.inr ⟨by decide, rfl⟩)
    obtain ⟨a, ha, hbinding⟩ := (hbinds s' hs').required 0 "a" rfl
    obtain ⟨v, hv, hrest⟩ := (hbinds s' hs').rest "more" rfl
    cases ha
    exact ⟨s', v, hs', hbinding, hrest, hv⟩
  · have hcount := (hbound []).1.1 ⟨s', hs'⟩
    exact absurd hcount (by decide)

end Scheme
