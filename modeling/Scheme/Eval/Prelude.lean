import Scheme.Eval.Shape
import Scheme.Number.Power

/-!
# The primitives

What each primitive does, as a shape with its conversions and function.

* `sum`, `product`, `difference`, `quotientOf`: arithmetic of any number of arguments;
* `chain`: a relation that holds between all neighbours;
* `appendLists`: the concatenation of lists that shares the last, one list after the other;
* `itemAt`: the item of a vector or bytevector at an index;
* `Primitive.shape`: the shape of every primitive.
-/

namespace Scheme

namespace Prelude

/-! ### Arithmetic -/

/-- The sum of numbers. -/
def sum (xs : List Number) : Number := xs.foldl Number.add (.ofInt 0)

/-- The product of numbers. -/
def product (xs : List Number) : Number := xs.foldl Number.mul (.ofInt 1)

/-- The difference of the first number and the others, or the negative of the only one. -/
def difference (x : Number) : List Number → Number
  | [] => x.neg
  | rest => rest.foldl Number.sub x

/-- The quotient of the first number by the others in turn, or the reciprocal of the only one. -/
def quotientOf (x : Number) : List Number → Except NumberError Number
  | [] => x.recip
  | rest => rest.foldlM Number.div x

/-- The relation holds between every two neighbours. -/
def chain {α : Type} (rel : α → α → Bool) : α → α → List α → Bool
  | x, y, [] => rel x y
  | x, y, z :: rest => rel x y && chain rel y z rest

/-- The failure of an operation on numbers is passed on as it is. -/
def lift {α : Type} : Except NumberError α → Except Failure α
  | .ok x => .ok x
  | .error e => .error (.number e)

/-- The logarithm of a number, to a given base if there are two. -/
def logarithm (ns : List Number) : Except Failure Number :=
  if ns.length = 2 then do
    let base ← Checked.item ns 1
    let x ← Checked.item ns 0
    match base.int64? with
    | some 2 => .ok x.log2
    | some 10 => .ok x.log10
    | _ => .ok (x.logBase base)
  else do
    let x ← Checked.item ns 0
    .ok x.log

/-- The arctangent of a number, or the angle of a point if there are two. -/
def arctangent (ns : List Number) : Except Failure Number :=
  if ns.length = 1 then do
    let x ← Checked.item ns 0
    .ok x.atan
  else do
    let y ← Checked.item ns 0
    let x ← Checked.item ns 1
    lift (y.atan2 x)

/-! ### Lists, vectors and bytes -/

/-- The elements of a proper list in front of a value that they share, made of pairs with the given
stamp and with indices from `index` on. -/
def append (stamp index : Nat) (v tail : Value) : Except Failure Value := do
  let items ← Checked.elements v
  .ok (Value.listFrom stamp index items tail)

/-- Append lists to a value from the last to the first; the first of them that is no list fails.
The lists before one take the indices before its own. -/
def appendFrom (stamp : Nat) : (index : Nat) → List Value → Value → Except Failure Value
  | _, [], last => .ok last
  | index, v :: rest, last => do
    let result ← appendFrom stamp (index + v.length) rest last
    match append stamp index v result with
    | .ok joined => .ok joined
    | .error _ => .error (.notList v.write)

/-- The concatenation of lists, of which the last is shared and may be anything. -/
def appendLists (stamp : Nat) (args : List Value) : Except Failure Value :=
  if args.isEmpty then .ok .nil
  else do
    let last ← Checked.item args (args.length - 1)
    let before ← Checked.slice args 0 (args.length - 1)
    appendFrom stamp 0 before last

/-- The number of elements of a proper list. -/
def listLength (v : Value) : Except Failure Int :=
  match Checked.elements v with
  | .ok items => .ok items.length
  | .error _ => .error (.notList v.write)

/-- The item at an index. -/
def itemAt {α : Type} (items : List α) (i : Int) : Except Failure α :=
  if i < 0 ∨ items.length ≤ i then
    .error (.typeMismatch ("index " ++ toString i ++ " out of range"))
  else Checked.item items i

/-- The call that `apply` asks for: of its first argument, with the arguments between and the
elements of the last. -/
def applyArguments (args : List Value) : Except Failure Action := do
  let last ← Checked.item args (args.length - 1)
  match Checked.elements last with
  | .error _ => .error (.notList last.write)
  | .ok items => do
    let between ← Checked.slice args 1 (args.length - 1)
    let f ← Checked.item args 0
    .ok (.call f (between ++ items))

/-! ### Shapes for kinds of functions -/

/-- A test of any value. -/
def test (p : Value → Bool) : Shape := .one .any .boolean fun v => .ok (p v)

/-- A test of numbers that fails on other values. -/
def numberTest (p : Number → Bool) : Shape := .one .number .boolean fun n => .ok (p n)

/-- A test that holds of some numbers and of nothing else. -/
def isNumberWith (p : Number → Bool) : Shape :=
  test fun v => ((Conversion.number? v).map p).getD false

/-- A test of real numbers that fails on other values. -/
def realTest (p : RealNumber → Bool) : Shape := .one .real .boolean fun x => .ok (p x)

/-- A function of numbers. -/
def numeric (f : Number → Number) : Shape := .one .number .number fun n => .ok (f n)

/-- A function of numbers that can fail. -/
def numericPartial (f : Number → Except NumberError Number) : Shape :=
  .one .number .number fun n => lift (f n)

/-- A function of real numbers. -/
def realUnary (f : RealNumber → RealNumber) : Shape := .one .real .real fun x => .ok (f x)

/-- A function of real numbers that can fail. -/
def realPartial (f : RealNumber → Except NumberError RealNumber) : Shape :=
  .one .real .real fun x => lift (f x)

/-- A function of two real numbers that can fail. -/
def realBinary (f : RealNumber → RealNumber → Except NumberError RealNumber) : Shape :=
  .two .real .real .real fun _ x y => lift (f x y)

/-- A comparison of real numbers. -/
def comparison (rel : RealNumber → RealNumber → Bool) : Shape :=
  .twoOrMore .real .boolean (chain rel)

/-- The extreme one of real numbers. -/
def extremum (pick : RealNumber → RealNumber → RealNumber) : Shape :=
  .oneOrMore .real fun x rest => .ok (rest.foldl pick x)

/-- A relation between any two values. -/
def relation (rel : Value → Value → Bool) : Shape :=
  .two .any .any .boolean fun _ x y => .ok (rel x y)

/-- A function of one or two numbers. -/
def oneOrTwo (f : List Number → Except Failure Number) : Shape :=
  .raw ⟨1, some 2⟩ fun _ args => do
    let ns ← Conversion.number.convertAll args
    Shape.give .number (← f ns)

end Prelude

open Prelude in
/-- The shape of every primitive. -/
def Primitive.shape : Primitive → Shape
  | .add => .many .number fun _ xs => sum xs
  | .mul => .many .number fun _ xs => product xs
  | .sub => .oneOrMore .number fun x rest => .ok (difference x rest)
  | .div => .oneOrMore .number fun x rest => lift (quotientOf x rest)
  | .numEq => .twoOrMoreLate .real .boolean (chain RealNumber.numEq)
  | .less => comparison RealNumber.less
  | .greater => comparison RealNumber.greater
  | .lessEq => comparison RealNumber.lessEq
  | .greaterEq => comparison RealNumber.greaterEq
  | .isNumber => isNumberWith fun _ => true
  | .isComplex => isNumberWith fun _ => true
  | .isReal => isNumberWith Number.isReal
  | .isRational => isNumberWith Number.isRational
  | .isInteger => isNumberWith Number.isInteger
  | .isExact => numberTest Number.isExact
  | .isInexact => numberTest fun n => !n.isExact
  | .isZero => numberTest Number.isZero
  | .isPositive => realTest fun x => 0 < x.sign
  | .isNegative => realTest fun x => x.sign < 0
  | .exp => numeric Number.exp
  | .log => oneOrTwo logarithm
  | .sqrt => numeric Number.sqrt
  | .sin => numeric Number.sin
  | .cos => numeric Number.cos
  | .tan => numeric Number.tan
  | .asin => numeric Number.asin
  | .acos => numeric Number.acos
  | .atan => oneOrTwo arctangent
  | .sinh => numeric Number.sinh
  | .cosh => numeric Number.cosh
  | .tanh => numeric Number.tanh
  | .expt => .two .number .number .number fun _ n m => lift (n.pow m)
  | .exact => numericPartial Number.toExact
  | .inexactToExact => numericPartial Number.toExact
  | .inexact => numeric Number.toInexact
  | .exactToInexact => numeric Number.toInexact
  | .floor => realUnary RealNumber.floor
  | .ceiling => realUnary RealNumber.ceil
  | .round => realUnary RealNumber.round
  | .truncate => realUnary RealNumber.trunc
  | .abs => realUnary RealNumber.abs
  | .min => extremum RealNumber.min
  | .max => extremum RealNumber.max
  | .quotient => realBinary RealNumber.quotient
  | .remainder => realBinary RealNumber.remainder
  | .modulo => realBinary RealNumber.modulo
  | .numerator => realPartial RealNumber.numerator
  | .denominator => realPartial RealNumber.denominator
  | .magnitude => numeric Number.magnitude
  | .angle => numeric Number.angle
  | .realPart => numeric Number.realPart
  | .imagPart => numeric Number.imagPart
  | .makeRectangular => .two .real .real .number fun _ x y => .ok (Number.rectangular x y)
  | .makePolar => .two .real .real .number fun _ r a => .ok (Number.polar r.toFloat a.toFloat)
  | .numberToString => .one .number .string fun n => .ok n.text
  | .car => .one .pair .any fun p => .ok p.car
  | .cdr => .one .pair .any fun p => .ok p.cdr
  | .cons => .two .any .any .any fun stamp a d => .ok (.pair ⟨stamp, 0⟩ a d)
  | .list => .many .any fun stamp xs => Value.list stamp xs .nil
  | .length => .one .any .int listLength
  | .append => .raw (.atLeast 0) fun stamp args => do .ok (.give (← appendLists stamp args))
  | .isEqv => relation Value.eqv
  | .isEq => relation Value.eqv
  | .isEqual => relation Value.equal
  | .not => test fun v => !v.isTrue
  | .isPair => test fun | .pair .. => true | _ => false
  | .isNull => test Datum.isNil
  | .isSymbol => test fun | .symbol _ => true | _ => false
  | .isBoolean => test fun | .boolean _ => true | _ => false
  | .isChar => test fun | .char _ => true | _ => false
  | .isString => test fun | .string _ => true | _ => false
  | .isVector => test fun | .vector .. => true | _ => false
  | .isBytevector => test fun | .bytes .. => true | _ => false
  | .isProcedure => test Value.isProcedure
  | .vector => .many .any fun stamp xs => .vector ⟨stamp, 0⟩ xs
  | .vectorLength => .one .vector .int fun v => .ok v.items.length
  | .vectorRef => .two .vector .int .any fun _ v i => itemAt v.items i
  | .bytevectorLength => .one .bytes .int fun b => .ok b.data.length
  | .bytevectorRef => .two .bytes .int .int fun _ b i => do .ok (← itemAt b.data i).toNat
  | .stringLength => .one .string .int fun s => .ok s.length
  | .symbolToString => .one .symbol .string fun s => .ok s
  | .stringToSymbol => .one .string .symbol fun s => .ok s
  | .eval => .raw (.exactly 1) fun _ args => do .ok (.evaluate (← Checked.item args 0))
  | .apply => .raw (.atLeast 2) fun _ args => applyArguments args
  | .display => .raw (.exactly 1) fun _ args => do .ok (.print (← Checked.item args 0).display)
  | .newline => .raw (.exactly 0) fun _ _ => .ok (.print "\n")

end Scheme
