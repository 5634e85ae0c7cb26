import Scheme.Eval.Machine
import Scheme.Reader.Parser

/-!
# Interpreters

An interpreter is a store with the settings of its evaluations.  Its operations run the machine and
keep the store for the next evaluation.

* `Interpreter.start`: a new interpreter;
* `Interpreter.evalIn`, `Interpreter.apply`: evaluation of an expression in a frame, and a call;
* `Interpreter.takeOutput`, `Interpreter.takeEvents`: what has been written and recorded.
-/

namespace Scheme

/-- A store and the settings of its evaluations. -/
structure Interpreter where
  settings : Settings
  store : Store

namespace Interpreter

/-- A new interpreter.  A depth that is not positive means no bound. -/
def start (maxDepth : Int) (recording : Bool) : Interpreter :=
  ⟨⟨if 0 < maxDepth then some maxDepth.toNat else none⟩, Store.initial recording⟩

/-- Run the machine from a control and tasks, and keep the store. -/
def runFrom (fuel : Nat) (i : Interpreter) (control : Control) (tasks : List Task) :
    Outcome × Interpreter :=
  let ⟨settings, store⟩ := i
  let (outcome, c) := Config.run settings fuel ⟨control, tasks, 0, store⟩
  (outcome, ⟨settings, c.store⟩)

/-- Evaluate an expression in a frame; a failure is recorded. -/
def evalIn (fuel : Nat) (i : Interpreter) (x : Value) (env : FrameId) : Outcome × Interpreter :=
  i.runFrom fuel (.enter x env) [.report x]

/-- Call a procedure. -/
def apply (fuel : Nat) (i : Interpreter) (f : Value) (args : List Value) : Outcome × Interpreter :=
  i.runFrom fuel (.apply f args) []

/-- Change the store. -/
def mapStore (i : Interpreter) (f : Store → Store) : Interpreter := { i with store := f i.store }

/-- The value of a written datum, and the interpreter after its labels are used. -/
def intern (i : Interpreter) (d : Sexp) : Value × Interpreter :=
  (i.store.intern d, i.mapStore Store.tick)

/-- Evaluate a written expression in a frame. -/
def evalSexp (fuel : Nat) (i : Interpreter) (d : Sexp) (env : FrameId) : Outcome × Interpreter :=
  let (x, i) := i.intern d
  i.evalIn fuel x env

/-- The text written since the last look, and the interpreter without it. -/
def takeOutput (i : Interpreter) : String × Interpreter :=
  (i.store.output, i.mapStore fun s => { s with output := "" })

/-- The events recorded since the last look, and the interpreter without them. -/
def takeEvents (i : Interpreter) : List Event × Interpreter :=
  ((i.store.journal.getD #[]).toList,
    i.mapStore fun s => { s with journal := s.journal.map fun _ => #[] })

end Interpreter

end Scheme
