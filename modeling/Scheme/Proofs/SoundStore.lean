import Mathlib
import Scheme.Proofs.Binding

/-!
# Sound values and stores

A value refers to closures by their numbers, and a store to frames by theirs.  A value is sound if
the closures in it exist and it holds no keyword; a store is sound if its frames bind names to sound
values, where the global frame may also bind the name of a keyword to that keyword, if every frame
extends an earlier one, and if every closure has a body, parameters that are accepted, and a frame.

* `Datum.Holds`: the run-time objects inside a datum;
* `Value.Sound`: sound values;
* `Store.Grows`: a later store has more closures and frames;
* `Store.Sound`: sound stores, with one lemma for each change of a store.
-/

namespace Scheme

/-! ### Objects inside data -/

/-- The object `x` is the datum or stands inside it. -/
inductive Datum.Holds {ι ξ : Type} (x : ξ) : Datum ι ξ → Prop where
  | object : Holds x (.object x)
  | car {l a d} : Holds x a → Holds x (.pair l a d)
  | cdr {l a d} : Holds x d → Holds x (.pair l a d)
  | item {l y items} : y ∈ items → Holds x y → Holds x (.vector l items)

/-- The object is no keyword, and if it is a closure, it is one of the first `n`. -/
def Object.Sound (n : Nat) : Object → Prop
  | .closure id _ => id < n
  | .keyword _ => False
  | .void | .primitive _ | .host _ | .absent => True

namespace Value

/-- All objects inside the value are sound. -/
def Sound (n : Nat) (v : Value) : Prop := ∀ x, Datum.Holds x v → x.Sound n

variable {n m : Nat}

theorem Sound.mono {v : Value} (h : v.Sound n) (hle : n ≤ m) : v.Sound m := by
  intro x hx
  have hsound := h x hx
  cases x with
  | closure id name => exact Nat.lt_of_lt_of_le hsound hle
  | _ => exact hsound

@[simp] theorem sound_symbol (s : String) : Sound n (.symbol s) := nofun

@[simp] theorem sound_boolean (b : Bool) : Sound n (.boolean b) := nofun

@[simp] theorem sound_char (c : Char) : Sound n (.char c) := nofun

@[simp] theorem sound_string (s : String) : Sound n (.string s) := nofun

@[simp] theorem sound_number (k : Number) : Sound n (.number k) := nofun

@[simp] theorem sound_nil : Sound n .nil := nofun

@[simp] theorem sound_bytes (l : Label) (data : List UInt8) : Sound n (.bytes l data) := nofun

@[simp] theorem sound_pair {l : Label} {a d : Value} :
    Sound n (.pair l a d) ↔ Sound n a ∧ Sound n d := by
  constructor
  · intro h
    exact ⟨fun x hx => h x hx.car, fun x hx => h x hx.cdr⟩
  · rintro ⟨ha, hd⟩ x (_ | hx | hx)
    · exact ha x ‹_›
    · exact hd x ‹_›

@[simp] theorem sound_vector {l : Label} {items : List Value} :
    Sound n (.vector l items) ↔ ∀ v ∈ items, Sound n v := by
  constructor
  · intro h v hv x hx
    exact h x (.item hv hx)
  · rintro h x (_ | _ | _ | ⟨hy, hx⟩)
    exact h _ hy x hx

@[simp] theorem sound_object {x : Object} : Sound n (.object x) ↔ x.Sound n := by
  constructor
  · intro h
    exact h x .object
  · rintro h _ ⟨⟩
    exact h

@[simp] theorem sound_void : Sound n .void := sound_object.2 trivial

theorem sound_listFrom {stamp index : Nat} {items : List Value} {tail : Value}
    (hitems : ∀ v ∈ items, Sound n v) (htail : Sound n tail) :
    Sound n (listFrom stamp index items tail) := by
  induction items generalizing index with
  | nil => exact htail
  | cons v items ih =>
    rw [List.forall_mem_cons] at hitems
    exact sound_pair.2 ⟨hitems.1, ih hitems.2⟩

theorem sound_list {stamp : Nat} {items : List Value} {tail : Value}
    (hitems : ∀ v ∈ items, Sound n v) (htail : Sound n tail) : Sound n (list stamp items tail) :=
  sound_listFrom hitems htail

/-- The elements of a chain and its end are sound. -/
theorem sound_spine {v : Value} (h : v.Sound n) :
    (∀ x ∈ v.spine.1, Sound n x) ∧ Sound n v.spine.2 := by
  induction v using Datum.spine.induct with
  | case1 l a d ih =>
    rw [sound_pair] at h
    obtain ⟨hitems, htail⟩ := ih h.2
    exact ⟨List.forall_mem_cons.2 ⟨h.1, hitems⟩, htail⟩
  | case2 d hd =>
    have hspine : d.spine = ([], d) := by
      cases d with
      | pair l a d => exact absurd rfl (hd l a d)
      | _ => rfl
    rw [hspine]
    exact ⟨List.forall_mem_nil _, h⟩

theorem sound_elements {v : Value} {items : List Value} (h : v.Sound n)
    (hitems : v.elements? = some items) : ∀ x ∈ items, Sound n x := by
  unfold Datum.elements? at hitems
  simp only at hitems
  split_ifs at hitems
  cases hitems
  exact (sound_spine h).1

mutual

/-- A written datum holds no objects. -/
theorem not_holds_labelled (stamp : Nat) (x : Object) :
    (d : Sexp) → (index : Nat) → ¬ Datum.Holds x (labelled stamp d index).1
  | .symbol _, _ | .boolean _, _ | .char _, _ | .string _, _ | .number _, _ | .nil, _ | .bytes _ _,
      _ =>
    by
      rw [labelled]
      nofun
  | .pair _ a d, index => by
    rw [labelled]
    rintro (_ | hx | hx)
    · exact not_holds_labelled stamp x a _ ‹_›
    · exact not_holds_labelled stamp x d _ ‹_›
  | .vector _ items, index => by
    rw [labelled]
    rintro (_ | _ | _ | ⟨hy, hx⟩)
    exact not_holds_labelledItems stamp x items _ _ hy hx
  | .object y, _ => nomatch y

theorem not_holds_labelledItems (stamp : Nat) (x : Object) :
    (items : List Sexp) → (index : Nat) →
      ∀ y ∈ (labelledItems stamp items index).1, ¬ Datum.Holds x y
  | [], _ => by
    rw [labelledItems]
    nofun
  | d :: items, index => by
    rw [labelledItems]
    refine List.forall_mem_cons.2 ⟨?_, ?_⟩
    · exact not_holds_labelled stamp x d _
    · exact not_holds_labelledItems stamp x items _

end

theorem sound_ofSexp (stamp : Nat) (d : Sexp) : Sound n (ofSexp stamp d) :=
  fun x hx => absurd hx (not_holds_labelled stamp x d 0)

end Value

/-! ### Growing stores -/

/-- A later store keeps every closure, and every frame with its parent and the names it binds. -/
structure Store.Grows (s s' : Store) : Prop where
  closure : ∀ (id : Nat) c, s.closures[id]? = some c → s'.closures[id]? = some c
  frame : ∀ (id : FrameId) f, s.frames[id]? = some f →
    ∃ f', s'.frames[id]? = some f' ∧ f'.parent = f.parent ∧
    ∀ name, (Bindings.get? f.bindings name).isSome → (Bindings.get? f'.bindings name).isSome

namespace Store

variable {s s' s'' : Store}

theorem Grows.of_eq (hf : s'.frames = s.frames) (hc : s'.closures = s.closures) : Grows s s' := by
  refine ⟨fun id c h => by rw [hc, h], fun id f h => ⟨f, by rw [hf, h], rfl, fun _ hname => hname⟩⟩

theorem Grows.refl (s : Store) : Grows s s := .of_eq rfl rfl

theorem Grows.trans (h : Grows s s') (h' : Grows s' s'') : Grows s s'' := by
  refine ⟨fun id c hid => h'.closure id c (h.closure id c hid), fun id f hid => ?_⟩
  obtain ⟨f', hf', hparent, hnames⟩ := h.frame id f hid
  obtain ⟨f'', hf'', hparent', hnames'⟩ := h'.frame id f' hf'
  exact ⟨f'', hf'', hparent'.trans hparent, fun name hname => hnames' name (hnames name hname)⟩

theorem Grows.closures_le (h : Grows s s') : s.closures.size ≤ s'.closures.size := by
  by_contra hlt
  rw [not_le] at hlt
  have hold : s.closures[s'.closures.size]? = some _ := Array.getElem?_eq_getElem hlt
  have hnew := h.closure _ _ hold
  rw [Array.getElem?_eq_none le_rfl] at hnew
  cases hnew

theorem Grows.frame_lt (h : Grows s s') {env : FrameId} (henv : env < s.frames.size) :
    env < s'.frames.size := by
  obtain ⟨f, hf, -⟩ := h.frame env _ (Array.getElem?_eq_getElem henv)
  exact lt_nextFrame hf

/-- A name that is bound stays bound. -/
theorem Grows.lookFor_isSome (h : Grows s s') {env : FrameId} {name : String}
    (hbound : (s.lookFor env name).isSome = true) : (s'.lookFor env name).isSome = true := by
  unfold lookFor at hbound ⊢
  rw [Option.isSome_map] at hbound ⊢
  induction env using Nat.strongRecOn with
  | _ env ih =>
    rw [find] at hbound
    split at hbound
    · cases hbound
    · rename_i f hf
      obtain ⟨f', hf', hparent, hnames⟩ := h.frame env f hf
      rw [find, hf']
      simp only
      cases hnew : Bindings.get? f'.bindings name with
      | some v => rfl
      | none =>
        -- the name is not bound in the earlier frame either, so the walk went on there
        have hold : Bindings.get? f.bindings name = none := by
          by_contra hsome
          have hstill := hnames name (Option.isSome_iff_ne_none.2 hsome)
          rw [hnew] at hstill
          cases hstill
        rw [hold] at hbound
        rw [hparent]
        cases hp : f.parent with
        | none =>
          rw [hp] at hbound
          cases hbound
        | some p =>
          rw [hp] at hbound
          simp only at hbound ⊢
          split_ifs at hbound ⊢ with hlt
          · exact ih p hlt hbound
          · exact hbound

theorem grows_define (s : Store) (env : FrameId) (name : String) (v : Value) :
    Grows s (s.define env name v) := by
  refine ⟨fun id c h => h, fun id f h => ?_⟩
  unfold define
  simp only [Array.getElem?_modify, h, Option.map_some]
  split_ifs with hid
  · refine ⟨_, rfl, rfl, fun other hother => ?_⟩
    simp only [Bindings.get?_set]
    split_ifs
    · rfl
    · exact hother
  · exact ⟨f, rfl, rfl, fun _ hname => hname⟩

theorem grows_addFrame (s : Store) (frame : Frame) : Grows s (s.addFrame frame) :=
  ⟨fun _ _ h => h, fun _ f h => ⟨f, frames_addFrame h frame, rfl, fun _ hname => hname⟩⟩

theorem grows_addClosure (s : Store) (c : Closure) : Grows s (s.addClosure c) :=
  ⟨fun _ _ h => closures_addClosure h c, fun _ f h => ⟨f, h, rfl, fun _ hname => hname⟩⟩

theorem grows_bindArguments (s : Store) (env : FrameId) (formals : Formals String)
    (args : List Value) :
    Grows s (s.bindArguments env formals args) := by
  have htick : Grows s s.tick := .of_eq rfl rfl
  exact htick.trans (grows_addFrame s.tick _)

end Store

/-! ### Sound stores -/

/-- The value may be bound to the name in a frame: it is sound, or it is a keyword that is bound to
its own name in the global frame. -/
def Store.Binds (s : Store) (env : FrameId) (name : String) (v : Value) : Prop :=
  v.Sound s.closures.size ∨
  (env = Store.global ∧ ∃ k : Keyword, v = .object (.keyword k) ∧ k.name = name)

/-- A closure has a body of sound forms, parameters that are accepted, and a frame. -/
structure Closure.Sound (s : Store) (c : Closure) : Prop where
  body : c.body ≠ []
  forms : ∀ x ∈ c.body, x.Sound s.closures.size
  formals : ∃ formals, Formals.parse? c.params = some formals
  frame : c.frame < s.frames.size

/-- There is a global frame, every frame extends an earlier one, and all bindings and closures are
sound. -/
structure Store.Sound (s : Store) : Prop where
  global : 0 < s.frames.size
  parent : ∀ (env : FrameId) f, s.frames[env]? = some f → ∀ p, f.parent = some p → p < env
  bound : ∀ (env : FrameId) f, s.frames[env]? = some f →
    ∀ name v, Bindings.get? f.bindings name = some v →
    s.Binds env name v
  closure : ∀ (id : Nat) c, s.closures[id]? = some c → c.Sound s

namespace Store

variable {s s' : Store}

theorem Binds.mono {env : FrameId} {name : String} {v : Value} (h : s.Binds env name v)
    (hgrows : Grows s s') : s'.Binds env name v := by
  rcases h with hsound | hkeyword
  · exact Or.inl (hsound.mono hgrows.closures_le)
  · exact Or.inr hkeyword

end Store

theorem Closure.Sound.mono {s s' : Store} {c : Closure} (h : c.Sound s) (hgrows : s.Grows s') :
    c.Sound s' where
  body := h.body
  forms x hx := (h.forms x hx).mono hgrows.closures_le
  formals := h.formals
  frame := hgrows.frame_lt h.frame

namespace Store

variable {s s' : Store}

/-- A change of the clock, the output or the journal does not matter. -/
theorem Sound.of_eq (h : s.Sound) (hf : s'.frames = s.frames) (hc : s'.closures = s.closures) :
    s'.Sound := by
  have hgrows : Grows s s' := .of_eq hf hc
  refine ⟨by rw [hf]; exact h.global, fun env f henv => ?_, fun env f henv name v hv => ?_,
    fun id c hid => ?_⟩
  · rw [hf] at henv
    exact h.parent env f henv
  · rw [hf] at henv
    exact (h.bound env f henv name v hv).mono hgrows
  · rw [hc] at hid
    exact (h.closure id c hid).mono hgrows

theorem Sound.define (h : s.Sound) {env : FrameId} {name : String} {v : Value}
    (hv : v.Sound s.closures.size) : (s.define env name v).Sound := by
  have hgrows := grows_define s env name v
  refine ⟨hgrows.frame_lt h.global, fun e f he p hp => ?_, fun e f he other w hw => ?_,
    fun id c hid => (h.closure id c hid).mono hgrows⟩
  · simp only [Store.define, Array.getElem?_modify] at he
    split_ifs at he
    · obtain ⟨f₀, hf₀, rfl⟩ := Option.map_eq_some_iff.1 he
      exact h.parent e f₀ hf₀ p hp
    · exact h.parent e f he p hp
  · simp only [Store.define, Array.getElem?_modify] at he
    split_ifs at he
    · obtain ⟨f₀, hf₀, rfl⟩ := Option.map_eq_some_iff.1 he
      simp only [Bindings.get?_set] at hw
      split_ifs at hw
      · cases hw
        exact Or.inl hv
      · exact h.bound e f₀ hf₀ other w hw
    · exact h.bound e f he other w hw

theorem Sound.addFrame (h : s.Sound) {frame : Frame}
    (hparent : ∀ p, frame.parent = some p → p < s.frames.size)
    (hbound : ∀ name v, Bindings.get? frame.bindings name = some v → v.Sound s.closures.size) :
    (s.addFrame frame).Sound := by
  have hgrows := grows_addFrame s frame
  refine ⟨hgrows.frame_lt h.global, fun env f henv p hp => ?_, fun env f henv name v hv => ?_,
    fun id c hid => (h.closure id c hid).mono hgrows⟩
  · rw [Store.addFrame, Array.getElem?_push] at henv
    split_ifs at henv with hnew
    · cases henv
      rw [hnew]
      exact hparent p hp
    · exact h.parent env f henv p hp
  · rw [Store.addFrame, Array.getElem?_push] at henv
    split_ifs at henv
    · cases henv
      exact Or.inl (hbound name v hv)
    · exact h.bound env f henv name v hv

theorem Sound.addClosure (h : s.Sound) {c : Closure} (hc : c.Sound s) : (s.addClosure c).Sound := by
  have hgrows := grows_addClosure s c
  refine ⟨h.global, h.parent,
    fun env f henv name v hv => (h.bound env f henv name v hv).mono hgrows, fun id c' hid => ?_⟩
  rw [Store.addClosure, Array.getElem?_push] at hid
  split_ifs at hid
  · cases hid
    exact hc.mono hgrows
  · exact (h.closure id c' hid).mono hgrows

/-- The parameters are bound to the arguments, and the last one to the list of those that are
left. -/
theorem sound_bindings {n : Nat} {stamp : Nat} {formals : Formals String} {args : List Value}
    (hargs : ∀ v ∈ args, v.Sound n) :
    ∀ name v, Bindings.get? (formals.bindings stamp args) name = some v → v.Sound n := by
  have hset {b : Bindings} (hb : ∀ name v, Bindings.get? b name = some v → v.Sound n) {key : String}
      {w : Value} (hw : w.Sound n) :
      ∀ name v, Bindings.get? (Bindings.set key w b) name = some v → v.Sound n := by
    intro name v hv
    rw [Bindings.get?_set] at hv
    split_ifs at hv
    · cases hv
      exact hw
    · exact hb name v hv
  -- the parameters are bound one after the other
  have hfold (pairs : List (String × Value)) (hpairs : ∀ p ∈ pairs, p.2.Sound n) (b : Bindings)
      (hb : ∀ name v, Bindings.get? b name = some v → v.Sound n) :
      ∀ name v, Bindings.get? (pairs.foldl (fun b p => Bindings.set p.1 p.2 b) b) name = some v →
        v.Sound n := by
    induction pairs generalizing b with
    | nil => exact hb
    | cons p pairs ih =>
      rw [List.forall_mem_cons] at hpairs
      exact ih hpairs.2 _ (hset hb hpairs.1)
  have hbound := hfold (formals.required.zip args)
    (fun p hp => hargs p.2 (List.of_mem_zip hp).2) [] (by rintro name v ⟨⟩)
  unfold Formals.bindings
  cases formals.rest with
  | none => exact hbound
  | some name =>
    refine hset hbound (Value.sound_list (fun v hv => hargs v (List.mem_of_mem_drop hv)) ?_)
    exact Value.sound_nil

theorem Sound.bindArguments (h : s.Sound) {env : FrameId} {formals : Formals String}
    {args : List Value} (henv : env < s.frames.size) (hargs : ∀ v ∈ args, v.Sound s.closures.size) :
    (s.bindArguments env formals args).Sound := by
  have htick : s.tick.Sound := h.of_eq rfl rfl
  refine htick.addFrame (fun p hp => ?_) (sound_bindings hargs)
  cases hp
  exact henv

/-- A binding that is found is one of the store. -/
theorem Sound.binds_of_find (h : s.Sound) {env env' : FrameId} {name : String} {v : Value}
    (hfind : s.find env name = some (env', v)) : s.Binds env' name v := by
  induction env using Nat.strongRecOn with
  | _ env ih =>
    rw [find] at hfind
    split at hfind
    · cases hfind
    · rename_i f hf
      split at hfind
      · rename_i w hw
        cases hfind
        exact h.bound _ f hf name v hw
      · split at hfind
        · cases hfind
        · rename_i parent hparent
          split_ifs at hfind with hlt
          exact ih parent hlt hfind

/-- The store that evaluation starts with is sound. -/
theorem sound_initial (recording : Bool) : (initial recording).Sound := by
  have hframe {env : FrameId} {f : Frame} (henv : (initial recording).frames[env]? = some f) :
      env = global ∧ f = ⟨none, initialBindings⟩ := by
    simp only [initial, List.getElem?_toArray, List.getElem?_singleton] at henv
    split_ifs at henv with hzero
    exact ⟨hzero, (Option.some.inj henv).symm⟩
  refine ⟨Nat.zero_lt_one, fun env f henv p hp => ?_, fun env f henv name v hv => ?_, nofun⟩
  · obtain ⟨-, rfl⟩ := hframe henv
    cases hp
  · obtain ⟨rfl, rfl⟩ := hframe henv
    obtain ⟨before, after, hsplit, -⟩ := List.lookup_eq_some_iff.1 hv
    have hmem : (name, v) ∈ initialBindings := by
      rw [show initialBindings = before ++ (name, v) :: after from hsplit]
      exact List.mem_append_right _ List.mem_cons_self
    rcases List.mem_append.1 hmem with hkeyword | hprimitive
    · obtain ⟨k, -, hk⟩ := List.mem_map.1 hkeyword
      cases hk
      exact Or.inr ⟨rfl, k, rfl, rfl⟩
    · obtain ⟨p, -, hp⟩ := List.mem_map.1 hprimitive
      cases hp
      exact Or.inl (Value.sound_object.2 trivial)

end Store

end Scheme
