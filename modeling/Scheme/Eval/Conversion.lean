import Scheme.Eval.Failure
import Scheme.Eval.Value

/-!
# Conversions

A conversion takes values of one type out of the run-time values and puts them back.  Its name
stands in the message about an argument of another type.
-/

namespace Scheme

/-- A conversion between run-time values and values of type `α`. -/
structure Conversion (α : Type) where
  /-- The name of the type in messages. -/
  name : String
  unwrap : Value → Option α
  wrap : α → Value

/-- A pair and its parts. -/
structure PairView where
  label : Label
  car : Value
  cdr : Value

/-- A vector and its items. -/
structure VectorView where
  label : Label
  items : List Value

/-- A bytevector and its bytes. -/
structure BytesView where
  label : Label
  data : List UInt8

namespace Conversion

/-- Any value. -/
def any : Conversion Value := ⟨"any", some, id⟩

/-- The number that a value is. -/
def number? : Value → Option Number
  | .number n => some n
  | _ => none

/-- Numbers. -/
def number : Conversion Number := ⟨"number", number?, .number⟩

/-- Real numbers. -/
def real : Conversion RealNumber :=
  ⟨"real", fun v => (number? v).bind Number.real?, fun x => .number (.ofReal x)⟩

/-- Exact integers of 64 bits. -/
def int : Conversion Int :=
  ⟨"exact integer", fun v => (number? v).bind Number.int64?, fun i => .number (.ofInt i)⟩

/-- Truth values. -/
def boolean : Conversion Bool :=
  ⟨"boolean", fun | .boolean b => some b | _ => none, .boolean⟩

/-- Pairs. -/
def pair : Conversion PairView :=
  ⟨"pair", fun | .pair l a d => some ⟨l, a, d⟩ | _ => none, fun p => .pair p.label p.car p.cdr⟩

/-- Symbols, by their names. -/
def symbol : Conversion String := ⟨"symbol", Datum.symbol?, .symbol⟩

/-- Strings. -/
def string : Conversion String :=
  ⟨"string", fun | .string s => some s | _ => none, .string⟩

/-- Vectors. -/
def vector : Conversion VectorView :=
  ⟨"vector", fun | .vector l xs => some ⟨l, xs⟩ | _ => none, fun v => .vector v.label v.items⟩

/-- Bytevectors. -/
def bytes : Conversion BytesView :=
  ⟨"bytevector", fun | .bytes l bs => some ⟨l, bs⟩ | _ => none, fun b => .bytes b.label b.data⟩

variable {α : Type}

/-- Take a value out of the argument with the given place, counted from one. -/
def convert (c : Conversion α) (place : Nat) (v : Value) : Except Failure α :=
  match c.unwrap v with
  | some x => .ok x
  | none =>
    .error (.typeMismatch
      ("argument " ++ toString place ++ ": expected " ++ c.name ++ ", got " ++ v.write))

/-- Take values out of the arguments from the given place on; the first that does not convert
fails. -/
def convertFrom (c : Conversion α) (place : Nat) : List Value → Except Failure (List α)
  | [] => .ok []
  | v :: args =>
    match c.convert place v with
    | .error e => .error e
    | .ok x =>
      match c.convertFrom (place + 1) args with
      | .ok xs => .ok (x :: xs)
      | .error e => .error e

/-- Take values out of all arguments. -/
def convertAll (c : Conversion α) (args : List Value) : Except Failure (List α) :=
  c.convertFrom 1 args

end Conversion

end Scheme
