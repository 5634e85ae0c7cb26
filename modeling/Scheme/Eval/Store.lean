import Scheme.Eval.Failure
import Scheme.Eval.Value

/-!
# The store

The store holds the frames of bindings, the closures, the text written so far and the journal of
events.  A frame extends an earlier frame, so that every chain of frames ends.

* `Bindings`: names with values, each name once;
* `Store.find`: the nearest binding of a name, `Store.lookFor` its frame, `Store.lookup` its value;
* `Store.define`, `Store.assign`: new and changed bindings;
* `Formals`: parameters, `Store.bindParameters`: their bindings to arguments, and `Store.extend`:
  the frame with these;
* `Store.frames_addFrame`, `Store.frames_define`, `Store.closures_addClosure`: which frames and
  closures stay.
-/

namespace Scheme

/-! ### Bindings -/

/-- Names with their values. -/
abbrev Bindings := List (String × Value)

namespace Bindings

/-- The value of a name. -/
def get? (b : Bindings) (name : String) : Option Value := b.lookup name

/-- Change the value of a name that is bound. -/
def replace (name : String) (v : Value) : Bindings → Bindings
  | [] => []
  | (n, w) :: rest => if n = name then (name, v) :: rest else (n, w) :: replace name v rest

/-- Bind a name, in place of any binding it had. -/
def set (name : String) (v : Value) (b : Bindings) : Bindings :=
  if (get? b name).isSome then replace name v b else (name, v) :: b

theorem get?_cons (n : String) (w : Value) (b : Bindings) (name : String) :
    get? ((n, w) :: b) name = if name = n then some w else get? b name := by
  unfold get?
  rw [List.lookup_cons]
  by_cases h : name = n
  · rw [if_pos h, beq_iff_eq.2 h]
  · rw [if_neg h, beq_eq_false_iff_ne.2 h]

/-- A change of a bound name shows at that name only. -/
theorem get?_replace (name : String) (v : Value) (b : Bindings) (other : String) :
    get? (replace name v b) other =
      if other = name ∧ (get? b name).isSome then some v else get? b other := by
  induction b with
  | nil => rw [if_neg (fun h => Bool.false_ne_true h.2)]; rfl
  | cons entry rest ih =>
    obtain ⟨n, w⟩ := entry
    unfold replace
    by_cases hn : n = name
    · subst hn
      rw [if_pos rfl, get?_cons, get?_cons, get?_cons, if_pos rfl]
      by_cases ho : other = n
      · rw [if_pos ho, if_pos ⟨ho, rfl⟩]
      · rw [if_neg ho, if_neg (fun h => ho h.1), if_neg ho]
    · rw [if_neg hn, get?_cons, get?_cons, get?_cons, if_neg (Ne.symm hn), ih]
      by_cases ho : other = n
      · subst ho
        rw [if_pos rfl, if_neg (fun h => hn h.1), if_pos rfl]
      · rw [if_neg ho, if_neg ho]

/-- Binding a name shows at that name only. -/
theorem get?_set (name : String) (v : Value) (b : Bindings) (other : String) :
    get? (set name v b) other = if other = name then some v else get? b other := by
  unfold set
  by_cases hb : (get? b name).isSome
  · rw [if_pos hb, get?_replace]
    by_cases ho : other = name
    · rw [if_pos ⟨ho, hb⟩, if_pos ho]
    · rw [if_neg (fun h => ho h.1), if_neg ho]
  · rw [if_neg hb, get?_cons]

theorem ne_of_get?_eq_none {b : Bindings} {name other : String} {v : Value}
    (hname : get? b name = none) (hother : get? b other = some v) : other ≠ name := by
  rintro rfl
  rw [hname] at hother
  cases hother

/-- Binding a new name keeps the values of the others. -/
theorem get?_set_of_new {b : Bindings} {name other : String} {v : Value}
    (hname : get? b name = none) (hother : get? b other = some v) (w : Value) :
    get? (set name w b) other = some v := by
  rw [get?_set, if_neg (ne_of_get?_eq_none hname hother), hother]

end Bindings

/-! ### Parameters -/

/-- The parameters of a procedure, and the one that takes all further arguments. -/
structure Formals (α : Type) where
  required : List α
  rest : Option α

namespace Formals

/-- The numbers of arguments that the parameters take. -/
def arity {α : Type} (f : Formals α) : Arity :=
  if f.rest.isSome then .atLeast f.required.length else .exactly f.required.length

/-- The parameters that a datum lists: a symbol takes all arguments, and the tail of an improper
list takes the rest. -/
def ofValue (d : Value) : Formals Value := ⟨d.elements, d.tail?⟩

/-- The names of parameters that are all symbols. -/
def names? (f : Formals Value) : Option (Formals String) := do
  let required ← f.required.mapM Datum.symbol?
  match f.rest with
  | none => some ⟨required, none⟩
  | some r => do
    let name ← r.symbol?
    some ⟨required, some name⟩

/-- All parameters, the one for further arguments last. -/
def all {α : Type} (f : Formals α) : List α := f.required ++ f.rest.toList

/-- No name stands twice. -/
def areDistinct : List String → Bool
  | [] => true
  | n :: ns => !ns.contains n && areDistinct ns

/-- The parameters of a procedure: distinct symbols. -/
def parse? (d : Value) : Option (Formals String) :=
  (ofValue d).names?.filter fun f => areDistinct f.all

/-- Bind parameters, which must be symbols, to the arguments from an index on. -/
def bindRequired (args : List Value) :
    (index : Nat) → List Value → Bindings → Except Failure Bindings
  | _, [], b => .ok b
  | index, p :: params, b => do
    let name ← Checked.symbol p
    let v ← Checked.item args index
    bindRequired args (index + 1) params (Bindings.set name v b)

/-- Bind parameters to arguments, of which there must be enough.  Further arguments are listed under
the given stamp. -/
def bindAll (f : Formals Value) (stamp : Nat) (args : List Value) : Except Failure Bindings := do
  let bound ← bindRequired args 0 f.required []
  match f.rest with
  | none => .ok bound
  | some r => do
    let more ← Checked.sliceFrom args f.required.length
    let name ← Checked.symbol r
    .ok (Bindings.set name (Value.list stamp more .nil) bound)

end Formals

/-! ### The store -/

/-- The number of a frame. -/
abbrev FrameId := Nat

/-- A frame: its bindings, and the frame it extends. -/
structure Frame where
  parent : Option FrameId
  bindings : Bindings

/-- A compound procedure, with the datum that lists its parameters. -/
structure Closure where
  params : Value
  body : List Value
  frame : FrameId

/-- An event of evaluation. -/
inductive Event where
  | call (name : String) (count : Nat)
  | define (name : String)
  | failure (form : String) (message : String)

namespace Event

/-- What happened. -/
def title : Event → String
  | .call .. => "Function call"
  | .define _ => "Define"
  | .failure .. => "Evaluation failed"

/-- The circumstances, by name. -/
def details : Event → List (String × String)
  | .call name count => [("closure", name), ("argc", toString count)]
  | .define name => [("name", name)]
  | .failure form message => [("exp", form), ("error", message)]

end Event

/-- All that evaluation changes. -/
structure Store where
  frames : Array Frame
  closures : Array Closure
  /-- The stamp of the next labels. -/
  clock : Nat
  /-- The text written so far. -/
  output : String
  /-- The events so far, if they are recorded. -/
  journal : Option (Array Event)

namespace Store

/-- The number of the global frame. -/
def global : FrameId := 0

/-- The bindings that evaluation starts with: the special forms and the primitives. -/
def initialBindings : Bindings :=
  Keyword.all.map (fun k => (k.name, .object (.keyword k))) ++
    Primitive.all.map (fun p => (p.name, .object (.primitive p)))

/-- The store that evaluation starts with. -/
def initial (recording : Bool) : Store where
  frames := #[⟨none, initialBindings⟩]
  closures := #[]
  clock := 0
  output := ""
  journal := if recording then some #[] else none

/-! #### Frames -/

/-- The frame that a frame extends. -/
def parent? (s : Store) (env : FrameId) : Option FrameId := (s.frames[env]?).bind (·.parent)

/-- The nearest binding of a name on the way outward from a frame, with its frame. -/
def find (s : Store) (env : FrameId) (name : String) : Option (FrameId × Value) :=
  match s.frames[env]? with
  | none => none
  | some frame =>
    match Bindings.get? frame.bindings name with
    | some v => some (env, v)
    | none =>
      match frame.parent with
      | none => none
      | some parent => if parent < env then s.find parent name else none
termination_by env

/-- The nearest frame that binds a name. -/
def lookFor (s : Store) (env : FrameId) (name : String) : Option FrameId :=
  (s.find env name).map (·.1)

/-- The value of a name. -/
def lookup (s : Store) (env : FrameId) (name : String) : Except EvalError Value :=
  match s.find env name with
  | some (_, v) => .ok v
  | none => .error (.unbound name)

/-- Bind a name in a frame. -/
def define (s : Store) (env : FrameId) (name : String) (v : Value) : Store :=
  { s with
    frames := s.frames.modify env fun f =>
      { f with bindings := Bindings.set name v f.bindings } }

/-- Change the nearest binding of a name. -/
def assign (s : Store) (env : FrameId) (name : String) (v : Value) : Except EvalError Store :=
  match s.lookFor env name with
  | some frame => .ok (s.define frame name v)
  | none => .error (.unbound name)

/-- The number of the next frame. -/
def nextFrame (s : Store) : FrameId := s.frames.size

/-- Add a frame, which gets the number `nextFrame`. -/
def addFrame (s : Store) (frame : Frame) : Store := { s with frames := s.frames.push frame }

/-- Add an empty frame that extends `env`. -/
def newFrame (s : Store) (env : FrameId) : Store := s.addFrame ⟨some env, []⟩

/-- Go on to the next stamp. -/
def tick (s : Store) : Store := { s with clock := s.clock + 1 }

/-- Why arguments cannot be bound to parameters: their number is not accepted. -/
def arityError? {α : Type} (name : String) (formals : Formals α) (args : List Value) :
    Option EvalError :=
  if formals.arity.accepts args.length then none
  else some (.argumentCount name formals.arity args.length)

/-- The bindings of the parameters that a datum lists to arguments, if their number is accepted. -/
def bindParameters (s : Store) (name : String) (params : Value) (args : List Value) :
    Except Failure Bindings :=
  let formals := Formals.ofValue params
  match arityError? name formals args with
  | some e => .error (.error e)
  | none => formals.bindAll s.clock args

/-- Add the frame of a call on `env`, with the bindings of the parameters. -/
def addCall (s : Store) (env : FrameId) (bindings : Bindings) : Store :=
  s.tick.addFrame ⟨some env, bindings⟩

/-- Add the frame on `env` that binds the parameters that a datum lists to arguments, if their
number is accepted. -/
def extend (s : Store) (env : FrameId) (name : String) (params : Value) (args : List Value) :
    Except Failure Store :=
  (s.bindParameters name params args).map (s.addCall env)

/-! #### Closures, output and journal -/

/-- The number of the next closure. -/
def nextClosure (s : Store) : Nat := s.closures.size

/-- Add a closure, which gets the number `nextClosure`. -/
def addClosure (s : Store) (c : Closure) : Store := { s with closures := s.closures.push c }

/-- Write a text. -/
def write (s : Store) (text : String) : Store := { s with output := s.output ++ text }

/-- Record an event, if events are recorded. -/
def record (s : Store) (event : Event) : Store :=
  { s with journal := s.journal.map (·.push event) }

/-- The value of a written datum, with labels of the current stamp. -/
def intern (s : Store) (d : Sexp) : Value := Value.ofSexp s.clock d

/-! #### What is kept -/

variable {s : Store} {env parent other : FrameId} {name : String} {v : Value} {b : Bindings}
    {f : Frame}

theorem lt_nextFrame (h : s.frames[env]? = some f) : env < s.nextFrame :=
  (Array.getElem?_eq_some_iff.1 h).1

/-- A frame stays what it is when another one is added. -/
theorem frames_addFrame (h : s.frames[env]? = some f) (f' : Frame) :
    (s.addFrame f').frames[env]? = some f := by
  have hne : env ≠ s.frames.size := Nat.ne_of_lt (lt_nextFrame h)
  rw [addFrame, Array.getElem?_push, if_neg hne, h]

/-- A closure stays what it is when another one is added. -/
theorem closures_addClosure {id : Nat} {c : Closure} (h : s.closures[id]? = some c) (c' : Closure) :
    (s.addClosure c').closures[id]? = some c := by
  have hlt : id < s.closures.size := (Array.getElem?_eq_some_iff.1 h).1
  rw [addClosure, Array.getElem?_push, if_neg (Nat.ne_of_lt hlt), h]

/-- A definition changes the bindings of its frame. -/
theorem frames_define {p : Option FrameId} (h : s.frames[env]? = some ⟨p, b⟩) (name : String)
    (v : Value) :
    (s.define env name v).frames[env]? = some ⟨p, Bindings.set name v b⟩ := by
  rw [define, Array.getElem?_modify, if_pos rfl, h]
  rfl

theorem frames_define_of_ne (h : env ≠ other) (name : String) (v : Value) :
    (s.define env name v).frames[other]? = s.frames[other]? := by
  rw [define, Array.getElem?_modify, if_neg h]

/-! #### The nearest binding -/

theorem find_here {p : Option FrameId} (h : s.frames[env]? = some ⟨p, b⟩)
    (hb : Bindings.get? b name = some v) : s.find env name = some (env, v) := by
  rw [find, h]
  simp only [hb]

theorem find_outward (h : s.frames[env]? = some ⟨some parent, b⟩) (hb : Bindings.get? b name = none)
    (hparent : parent < env) : s.find env name = s.find parent name := by
  rw [find, h]
  simp only [hb, if_pos hparent]

end Store

end Scheme
