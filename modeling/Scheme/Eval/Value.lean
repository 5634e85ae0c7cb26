import Scheme.Datum.Equality
import Scheme.Datum.Printer

/-!
# Values

A value is a datum whose pairs, vectors and bytevectors carry labels, or an object that exists only
at run time: a procedure, a keyword, the value of forms whose result is not specified, or a value of
the host language that means nothing to evaluation.

* `Keyword`: the special forms;
* `Primitive`: the built-in procedures;
* `HostType`, `HostValue`: values of the host language;
* `Object`, `Value`: run-time objects and values;
* `Object.sameValue`: the comparison of run-time objects;
* `Value.list`: a list of fresh pairs;
* `Value.ofSexp`: a written datum with fresh labels;
* `Value.equal`, `Value.eqv`: equality and equivalence.
-/

namespace Scheme

/-- The special forms. -/
inductive Keyword where
  | quote | conditional | sequence | lambda | define | assign
  | quasiquote | unquote | unquoteSplicing
  deriving DecidableEq

namespace Keyword

/-- The name of a special form. -/
def name : Keyword → String
  | .quote => "quote"
  | .conditional => "if"
  | .sequence => "begin"
  | .lambda => "lambda"
  | .define => "define"
  | .assign => "set!"
  | .quasiquote => "quasiquote"
  | .unquote => "unquote"
  | .unquoteSplicing => "unquote-splicing"

/-- All special forms. -/
def all : List Keyword :=
  [.quote, .conditional, .sequence, .lambda, .define, .assign, .quasiquote, .unquote,
   .unquoteSplicing]

end Keyword

/-- The built-in procedures. -/
inductive Primitive where
  | add | mul | sub | div
  | numEq | less | greater | lessEq | greaterEq
  | isNumber | isComplex | isReal | isRational | isInteger | isExact | isInexact
  | isZero | isPositive | isNegative
  | exp | log | sqrt | sin | cos | tan | asin | acos | atan | sinh | cosh | tanh | expt
  | exact | inexactToExact | inexact | exactToInexact
  | floor | ceiling | round | truncate | abs | min | max
  | quotient | remainder | modulo | numerator | denominator
  | magnitude | angle | realPart | imagPart | makeRectangular | makePolar | numberToString
  | car | cdr | cons | list | length | append | isEqv | isEq | isEqual | not
  | isPair | isNull | isSymbol | isBoolean | isChar | isString
  | isVector | isBytevector | isProcedure
  | vector | vectorLength | vectorRef | bytevectorLength | bytevectorRef
  | stringLength | symbolToString | stringToSymbol
  | eval | apply | display | newline
  deriving DecidableEq

namespace Primitive

/-- The name of a primitive. -/
def name : Primitive → String
  | .add => "+"
  | .mul => "*"
  | .sub => "-"
  | .div => "/"
  | .numEq => "="
  | .less => "<"
  | .greater => ">"
  | .lessEq => "<="
  | .greaterEq => ">="
  | .isNumber => "number?"
  | .isComplex => "complex?"
  | .isReal => "real?"
  | .isRational => "rational?"
  | .isInteger => "integer?"
  | .isExact => "exact?"
  | .isInexact => "inexact?"
  | .isZero => "zero?"
  | .isPositive => "positive?"
  | .isNegative => "negative?"
  | .exp => "exp"
  | .log => "log"
  | .sqrt => "sqrt"
  | .sin => "sin"
  | .cos => "cos"
  | .tan => "tan"
  | .asin => "asin"
  | .acos => "acos"
  | .atan => "atan"
  | .sinh => "sinh"
  | .cosh => "cosh"
  | .tanh => "tanh"
  | .expt => "expt"
  | .exact => "exact"
  | .inexactToExact => "inexact->exact"
  | .inexact => "inexact"
  | .exactToInexact => "exact->inexact"
  | .floor => "floor"
  | .ceiling => "ceiling"
  | .round => "round"
  | .truncate => "truncate"
  | .abs => "abs"
  | .min => "min"
  | .max => "max"
  | .quotient => "quotient"
  | .remainder => "remainder"
  | .modulo => "modulo"
  | .numerator => "numerator"
  | .denominator => "denominator"
  | .magnitude => "magnitude"
  | .angle => "angle"
  | .realPart => "real-part"
  | .imagPart => "imag-part"
  | .makeRectangular => "make-rectangular"
  | .makePolar => "make-polar"
  | .numberToString => "number->string"
  | .car => "car"
  | .cdr => "cdr"
  | .cons => "cons"
  | .list => "list"
  | .length => "length"
  | .append => "append"
  | .isEqv => "eqv?"
  | .isEq => "eq?"
  | .isEqual => "equal?"
  | .not => "not"
  | .isPair => "pair?"
  | .isNull => "null?"
  | .isSymbol => "symbol?"
  | .isBoolean => "boolean?"
  | .isChar => "char?"
  | .isString => "string?"
  | .isVector => "vector?"
  | .isBytevector => "bytevector?"
  | .isProcedure => "procedure?"
  | .vector => "vector"
  | .vectorLength => "vector-length"
  | .vectorRef => "vector-ref"
  | .bytevectorLength => "bytevector-length"
  | .bytevectorRef => "bytevector-u8-ref"
  | .stringLength => "string-length"
  | .symbolToString => "symbol->string"
  | .stringToSymbol => "string->symbol"
  | .eval => "eval"
  | .apply => "apply"
  | .display => "display"
  | .newline => "newline"

/-- All primitives, in the order in which they are first bound. -/
def all : List Primitive :=
  [.add, .mul, .sub, .div, .numEq, .less, .greater, .lessEq, .greaterEq,
   .isNumber, .isComplex, .isReal, .isRational, .isInteger, .isExact, .isInexact,
   .isZero, .isPositive, .isNegative,
   .exp, .log, .sqrt, .sin, .cos, .tan, .asin, .acos, .atan, .sinh, .cosh, .tanh, .expt,
   .exact, .inexactToExact, .inexact, .exactToInexact,
   .floor, .ceiling, .round, .truncate, .abs, .min, .max,
   .quotient, .remainder, .modulo, .numerator, .denominator,
   .magnitude, .angle, .realPart, .imagPart, .makeRectangular, .makePolar, .numberToString,
   .car, .cdr, .cons, .list, .length, .append, .isEqv, .isEq, .isEqual, .not,
   .isPair, .isNull, .isSymbol, .isBoolean, .isChar, .isString, .isVector, .isBytevector,
   .isProcedure, .vector, .vectorLength, .vectorRef, .bytevectorLength, .bytevectorRef,
   .stringLength, .symbolToString, .stringToSymbol, .eval, .apply, .display, .newline]

end Primitive

/-- A type of the host language. -/
structure HostType where
  name : String
  /-- Values of the type can be compared. -/
  comparable : Bool
  deriving DecidableEq

/-- A value of the host language that is none of the objects of evaluation. -/
structure HostValue where
  type : HostType
  /-- What the value is among the values of its type, by a number. -/
  content : Nat
  /-- The value is equal to itself, if values of its type can be compared at all.  A NaN is not. -/
  reflexive : Bool
  /-- The text of the value, if it has one of its own. -/
  text? : Option String
  deriving DecidableEq

/-- Objects that exist only at run time. -/
inductive Object where
  /-- The value of forms whose result is not specified. -/
  | void
  /-- A compound procedure, by its number in the store, with the name it was defined by. -/
  | closure (id : Nat) (name : String)
  | primitive (p : Primitive)
  | keyword (k : Keyword)
  /-- A value of the host language that evaluation does not look into. -/
  | host (x : HostValue)
  /-- No value of the host language at all. -/
  | absent
  deriving DecidableEq

namespace Object

/-- The text of a run-time object. -/
def text : Object → String
  | .void => "#<void>"
  | .closure _ name => if name = "" then "#<closure>" else "#<closure " ++ name ++ ">"
  | .primitive p => "#<primitive " ++ p.name ++ ">"
  | .keyword k => "#<syntax " ++ k.name ++ ">"
  | .host x => x.text?.getD ("#<ext " ++ x.type.name ++ ">")
  | .absent => "#<ext <nil>>"

/-- The type that an object has in the host language. -/
def hostType? : Object → Option HostType
  | .void => some ⟨"void", true⟩
  | .closure .. => some ⟨"closure", true⟩
  | .primitive _ => some ⟨"primitive", true⟩
  | .keyword _ => some ⟨"keyword", true⟩
  | .host x => some x.type
  | .absent => none

/-- The objects are equal as values of one type whose values can be compared. -/
def sameContent : Object → Object → Bool
  | .host x, .host y => x.reflexive && x == y
  | x, y => x == y

/-- The comparison of run-time objects: nothing is the same as nothing only, and all others are the
same if they have one type, whose values can be compared, and are equal. -/
def sameValue (x y : Object) : Bool :=
  match x.hostType?, y.hostType? with
  | none, none => true
  | some t, some u => t == u && t.comparable && sameContent x y
  | _, _ => false

end Object

instance : ObjectText Object := ⟨Object.text⟩

/-- The label of a pair, vector or bytevector: the moment at which it was made, and its number among
those made at that moment. -/
structure Label where
  stamp : Nat
  index : Nat
  deriving DecidableEq

/-- A run-time value. -/
abbrev Value := Datum Label Object

namespace Value

/-- The value of forms whose result is not specified. -/
def void : Value := .object .void

/-- The value is `void`. -/
def isVoid : Value → Bool
  | .object .void => true
  | _ => false

/-- The value can be called. -/
def isProcedure : Value → Bool
  | .object (.closure ..) => true
  | .object (.primitive _) => true
  | _ => false

/-- The special form that a value denotes. -/
def keyword? : Value → Option Keyword
  | .object (.keyword k) => some k
  | _ => none

/-! ### Making values -/

/-- The list of `items` before `tail`, made of pairs with the given stamp and with indices from
`index` on. -/
def listFrom (stamp index : Nat) (items : List Value) (tail : Value) : Value :=
  match items with
  | [] => tail
  | x :: rest => .pair ⟨stamp, index⟩ x (listFrom stamp (index + 1) rest tail)

/-- The list of `items` before `tail`, made of pairs with the given stamp. -/
def list (stamp : Nat) (items : List Value) (tail : Value) : Value := listFrom stamp 0 items tail

theorem spine_listFrom (stamp index : Nat) (items : List Value) (tail : Value) :
    (listFrom stamp index items tail).spine = (items ++ tail.spine.1, tail.spine.2) := by
  induction items generalizing index with
  | nil => rfl
  | cons x items ih =>
    rw [listFrom, Datum.spine_pair, ih]
    rfl

theorem spine_list (stamp : Nat) (items : List Value) (tail : Value) :
    (list stamp items tail).spine = (items ++ tail.spine.1, tail.spine.2) :=
  spine_listFrom stamp 0 items tail

/-- A list has the elements it was made of. -/
theorem elements?_list (stamp : Nat) (items : List Value) :
    (list stamp items .nil).elements? = some items := by
  unfold Datum.elements?
  rw [spine_list]
  exact congrArg some (List.append_nil items)

mutual

/-- The written datum with labels of the given stamp and of indices from `index` on, and the next
free index. -/
def labelled (stamp : Nat) : Sexp → Nat → Value × Nat
  | .symbol s, index => (.symbol s, index)
  | .boolean b, index => (.boolean b, index)
  | .char c, index => (.char c, index)
  | .string s, index => (.string s, index)
  | .number n, index => (.number n, index)
  | .nil, index => (.nil, index)
  | .pair _ car cdr, index =>
    let (a, index₁) := labelled stamp car (index + 1)
    let (d, index₂) := labelled stamp cdr index₁
    (.pair ⟨stamp, index⟩ a d, index₂)
  | .vector _ items, index =>
    let (xs, index₁) := labelledItems stamp items (index + 1)
    (.vector ⟨stamp, index⟩ xs, index₁)
  | .bytes _ data, index => (.bytes ⟨stamp, index⟩ data, index + 1)
  | .object x, _ => nomatch x

/-- The written data with labels, one after the other. -/
def labelledItems (stamp : Nat) : List Sexp → Nat → List Value × Nat
  | [], index => ([], index)
  | x :: xs, index =>
    let (y, index₁) := labelled stamp x index
    let (ys, index₂) := labelledItems stamp xs index₁
    (y :: ys, index₂)

end

/-- The written datum with fresh labels of the given stamp. -/
def ofSexp (stamp : Nat) (d : Sexp) : Value := (labelled stamp d 0).1

/-! ### Equality -/

/-- The values have the same structure and equal atoms. -/
def equal : Value → Value → Bool := Datum.equalBy (· == ·) Object.sameValue

/-- The values are equal atoms or the same object. -/
def eqv : Value → Value → Bool := Datum.eqvBy (· == ·) Object.sameValue

end Value

end Scheme
