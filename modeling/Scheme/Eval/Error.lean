import Scheme.Number.Real

/-!
# Errors of evaluation

An error has a kind, the name of the variable, primitive or special form it concerns, the argument
counts for an error of that kind, and a detail.

* `ErrorKind`: the nine kinds, and room for others;
* `EvalError`: an error, with `EvalError.message`;
* `EvalError.named`: give an error a name unless it has one.
-/

namespace Scheme

/-- The kinds of evaluation errors. -/
inductive ErrorKind where
  | unboundVariable
  | notCallable
  | notList
  | argumentCount
  | typeMismatch
  | divideByZero
  | emptyCombination
  | badForm
  | depthExceeded
  /-- A kind that evaluation does not use, by its number. -/
  | other (code : Int)
  deriving DecidableEq

namespace ErrorKind

/-- The kinds that evaluation uses, in the order of their numbers from one. -/
def all : List ErrorKind :=
  [.unboundVariable, .notCallable, .notList, .argumentCount, .typeMismatch, .divideByZero,
   .emptyCombination, .badForm, .depthExceeded]

/-- The kind with a given number. -/
def ofCode (code : Int) : ErrorKind :=
  if 1 ≤ code then (all[code.toNat - 1]?).getD (.other code) else .other code

/-- The text of a kind. -/
def text : ErrorKind → String
  | .unboundVariable => "unbound variable"
  | .notCallable => "not callable"
  | .notList => "not list"
  | .argumentCount => "bad number of arguments"
  | .typeMismatch => "type error"
  | .divideByZero => "divide by zero"
  | .emptyCombination => "() cannot be evaluated"
  | .badForm => "bad syntax"
  | .depthExceeded => "recursion depth exceeded"
  | .other code => "ErrorKind(" ++ toString code ++ ")"

end ErrorKind

/-- The numbers of arguments that are accepted, without an upper bound if there is none.  The bounds
of a procedure are natural numbers; an error can be made with any. -/
structure Arity where
  min : Int
  max : Option Nat
  deriving DecidableEq

namespace Arity

/-- Exactly `n` arguments. -/
def exactly (n : Nat) : Arity := ⟨n, some n⟩

/-- At least `n` arguments. -/
def atLeast (n : Nat) : Arity := ⟨n, none⟩

/-- `n` arguments are accepted. -/
def accepts (a : Arity) (n : Nat) : Bool :=
  a.min ≤ (n : Int) && (a.max.all fun m => n ≤ m)

/-- A number of arguments. -/
def plural (n : Int) : String :=
  if n = 1 then "1 argument" else toString n ++ " arguments"

/-- The text of the accepted numbers. -/
def text (a : Arity) : String :=
  match a.max with
  | none => "at least " ++ plural a.min
  | some max => if a.min = max then plural a.min else toString a.min ++ " to " ++ plural max

end Arity

/-- An error of evaluation. -/
structure EvalError where
  kind : ErrorKind
  /-- The variable, primitive or special form concerned, if any. -/
  name : String := ""
  /-- The accepted numbers of arguments, for an error in their number. -/
  arity : Arity := .exactly 0
  /-- The actual number of arguments, for an error in their number. -/
  got : Int := 0
  detail : String := ""
  deriving DecidableEq

namespace EvalError

/-- `text` after the name of the error, if it has one. -/
def withName (e : EvalError) (text : String) : String :=
  if e.name = "" then text else e.name ++ ": " ++ text

/-- The text of the error. -/
def message (e : EvalError) : String :=
  match e.kind with
  | .unboundVariable => e.kind.text ++ ": " ++ e.name
  | .emptyCombination => e.kind.text
  | .argumentCount =>
    e.withName ("expected " ++ e.arity.text ++ ", received " ++ toString e.got)
  | kind => e.withName (if e.detail = "" then kind.text else kind.text ++ ": " ++ e.detail)

/-- The error with the given name, unless it has one. -/
def named (name : String) (e : EvalError) : EvalError :=
  if e.name = "" then { e with name := name } else e

/-- A variable without a binding. -/
def unbound (name : String) : EvalError := { kind := .unboundVariable, name := name }

/-- Something other than a procedure was called. -/
def notCallable (text : String) : EvalError := { kind := .notCallable, detail := text }

/-- A proper list was required. -/
def notList (text : String) : EvalError := { kind := .notList, detail := text }

/-- The number of arguments is not accepted. -/
def argumentCount (name : String) (arity : Arity) (got : Nat) : EvalError :=
  { kind := .argumentCount, name := name, arity := arity, got := got }

/-- A value of another type was required. -/
def typeMismatch (text : String) : EvalError := { kind := .typeMismatch, detail := text }

/-- A special form is misused. -/
def badForm (keyword text : String) : EvalError :=
  { kind := .badForm, name := keyword, detail := text }

/-- Evaluations are nested too deeply. -/
def depthExceeded (text : String) : EvalError := { kind := .depthExceeded, detail := text }

end EvalError

end Scheme
