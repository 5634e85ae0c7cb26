import Scheme.Eval.Conversion

/-!
# Shapes of primitives

A primitive checks the number of its arguments, converts them, and applies a function.  Its shape
says in which order it does so, and with which numbers and conversions.  The arguments are accessed
by their places, which breaks off where there is none.

* `Action`: what a call of a primitive asks for;
* `Shape`: the shapes;
* `Shape.run`: a call with given arguments.
-/

namespace Scheme

/-- What a call of a primitive asks for. -/
inductive Action where
  /-- The call has this value. -/
  | give (v : Value)
  /-- Evaluate this expression in the global frame. -/
  | evaluate (x : Value)
  /-- Call this procedure. -/
  | call (f : Value) (args : List Value)
  /-- Write this text. -/
  | print (text : String)

/-- The shapes of primitives.  Functions that make pairs or vectors take the stamp of their
labels. -/
inductive Shape : Type 1 where
  /-- Any number of arguments. -/
  | many {α : Type} (arg : Conversion α) (f : Nat → List α → α)
  /-- At least one argument. -/
  | oneOrMore {α : Type} (arg : Conversion α) (f : α → List α → Except Failure α)
  /-- At least two arguments, converted before they are counted. -/
  | twoOrMoreLate {α β : Type} (arg : Conversion α) (result : Conversion β) (f : α → α → List α → β)
  /-- At least two arguments, counted before they are converted. -/
  | twoOrMore {α β : Type} (arg : Conversion α) (result : Conversion β) (f : α → α → List α → β)
  /-- One argument. -/
  | one {α β : Type} (arg : Conversion α) (result : Conversion β) (f : α → Except Failure β)
  /-- Two arguments. -/
  | two {α β γ : Type} (first : Conversion α) (second : Conversion β) (result : Conversion γ)
      (f : Nat → α → β → Except Failure γ)
  /-- A number of arguments that are not converted. -/
  | raw (arity : Arity) (f : Nat → List Value → Except Failure Action)

namespace Shape

/-- The numbers of arguments that a shape accepts. -/
def arity : Shape → Arity
  | .many .. => .atLeast 0
  | .oneOrMore .. => .atLeast 1
  | .twoOrMoreLate .. => .atLeast 2
  | .twoOrMore .. => .atLeast 2
  | .one .. => .exactly 1
  | .two .. => .exactly 2
  | .raw arity _ => arity

/-- The failure of a call with a number of arguments that is not accepted. -/
def wrongCount (arity : Arity) (args : List Value) : Failure :=
  .error (.argumentCount "" arity args.length)

/-- The number of arguments is accepted. -/
def checkArity (arity : Arity) (args : List Value) : Except Failure Unit :=
  if arity.accepts args.length then .ok () else .error (wrongCount arity args)

theorem checkArity_of_accepts {arity : Arity} {args : List Value}
    (h : arity.accepts args.length = true) :
    checkArity arity args = .ok () := if_pos h

theorem checkArity_of_refuses {arity : Arity} {args : List Value}
    (h : arity.accepts args.length = false) :
    checkArity arity args = .error (wrongCount arity args) := if_neg (by rw [h]; nofun)

/-- Put a result back. -/
def give {β : Type} (result : Conversion β) (x : β) : Except Failure Action :=
  .ok (.give (result.wrap x))

/-- Apply a function to converted arguments, of which there are at least two. -/
def applyTwoOrMore {α β : Type} (result : Conversion β) (f : α → α → List α → β) (xs : List α) :
    Except Failure Action := do
  let x ← Checked.item xs 0
  let y ← Checked.item xs 1
  let rest ← Checked.sliceFrom xs 2
  give result (f x y rest)

/-- Call a primitive of the given shape.  The stamp is for the labels of what the call makes. -/
def run (shape : Shape) (stamp : Nat) (args : List Value) : Except Failure Action :=
  match shape with
  | .many arg f => do
    let xs ← arg.convertAll args
    give arg (f stamp xs)
  | .oneOrMore arg f => do
    checkArity (.atLeast 1) args
    let xs ← arg.convertAll args
    let x ← Checked.item xs 0
    let rest ← Checked.sliceFrom xs 1
    give arg (← f x rest)
  | .twoOrMoreLate arg result f => do
    let xs ← arg.convertAll args
    checkArity (.atLeast 2) args
    applyTwoOrMore result f xs
  | .twoOrMore arg result f => do
    checkArity (.atLeast 2) args
    let xs ← arg.convertAll args
    applyTwoOrMore result f xs
  | .one arg result f => do
    checkArity (.exactly 1) args
    let x ← arg.convert 1 (← Checked.item args 0)
    give result (← f x)
  | .two first second result f => do
    checkArity (.exactly 2) args
    let x ← first.convert 1 (← Checked.item args 0)
    let y ← second.convert 2 (← Checked.item args 1)
    give result (← f stamp x y)
  | .raw arity f => do
    checkArity arity args
    f stamp args

end Shape

end Scheme
