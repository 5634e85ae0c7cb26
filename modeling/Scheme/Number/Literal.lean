import Scheme.Number.Basic
import Scheme.Number.Digits

/-!
# Number literals

A literal is an optional exactness mark `#e` or `#i`, then a real literal or a rectangular one
`a+bi`.  A real literal has an optional sign and is an integer, a fraction, a decimal with an
optional exponent, or one of `+inf.0`, `-inf.0`, `+nan.0`, `-nan.0`.

Without a mark, decimals are inexact and integers and fractions exact.  In a fraction a leading zero
marks octal digits.

* `Magnitude.parse`: the shape of an unsigned literal, `Magnitude.exactValue?` and
  `Magnitude.toFloat?`: its value;
* `RealNumber.parse`: real literals;
* `Number.splitImaginary`: where the imaginary part of a rectangular literal starts;
* `Number.parse`: all literals.
-/

namespace Scheme

/-- The exactness that a mark asks for. -/
inductive Exactness where
  | exact
  | inexact
  deriving DecidableEq

/-- The exactness marked by the letter after `#`. -/
def Exactness.ofLetter? (c : Char) : Option Exactness :=
  if c = 'e' ∨ c = 'E' then some .exact
  else if c = 'i' ∨ c = 'I' then some .inexact
  else none

/-- `c` is a sign. -/
def isSign (c : Char) : Bool := c = '+' || c = '-'

/-- `c` starts an exponent. -/
def isExponentMark (c : Char) : Bool := c = 'e' || c = 'E'

/-- Take a sign off the front of a text; `true` stands for the negative one. -/
def splitSign : List Char → Bool × List Char
  | '+' :: cs => (false, cs)
  | '-' :: cs => (true, cs)
  | cs => (false, cs)

/-- `digits` is a non-empty run of decimal digits. -/
def isDigits (digits : List Char) : Bool := !digits.isEmpty && digits.all Char.isDigit

/-! ### Unsigned literals -/

/-- An unsigned literal by its shape. -/
inductive Magnitude where
  /-- `numerator/denominator`. -/
  | fraction (numerator denominator : List Char)
  /-- `whole.decimals` with an optional exponent of a sign and digits. -/
  | decimal (whole : List Char) (point : Bool) (decimals : List Char)
      (exponent : Option (Bool × List Char))
  deriving DecidableEq

namespace Magnitude

/-- Read the optional exponent that ends a decimal. -/
def parseExponent : List Char → Option (Option (Bool × List Char))
  | [] => some none
  | c :: cs =>
    let (negative, digits) := splitSign cs
    if isExponentMark c && isDigits digits then some (some (negative, digits)) else none

/-- Read an unsigned literal. -/
def parse (cs : List Char) : Option Magnitude :=
  let whole := cs.takeWhile Char.isDigit
  match cs.dropWhile Char.isDigit with
  | '/' :: denominator =>
    if isDigits whole && isDigits denominator then some (.fraction whole denominator) else none
  | '.' :: rest =>
    let decimals := rest.takeWhile Char.isDigit
    if whole.isEmpty && decimals.isEmpty then none
    else (parseExponent (rest.dropWhile Char.isDigit)).map (.decimal whole true decimals)
  | rest =>
    if whole.isEmpty then none else (parseExponent rest).map (.decimal whole false [])

/-- The literal has a point or an exponent. -/
def isDecimal : Magnitude → Bool
  | .fraction .. => false
  | .decimal _ point _ exponent => point || exponent.isSome

/-- The value of a part of a fraction, in octal if it starts with a zero. -/
def partValue? (digits : List Char) : Option Nat :=
  if digits.head? = some '0' then
    if digits.all (· < '8') then some (digitsValue 8 digits) else none
  else some (digitsValue 10 digits)

/-- The exponent that follows the mark. -/
def exponentValue : Option (Bool × List Char) → Int
  | none => 0
  | some (negative, digits) =>
    if negative then -(digitsValue 10 digits) else digitsValue 10 digits

/-- The bound up to which the digits of an inexact decimal's exponent count. -/
def exponentBound : Nat := 10000

/-- The size of an inexact decimal's exponent.  Once `exponentBound` is reached, further digits are
passed over: such an exponent leaves the range of inexact numbers unless thousands of digits
outweigh it. -/
def boundedExponent (digits : List Char) : Nat :=
  digits.foldl (fun e c => if e < exponentBound then appendDigit 10 e c else e) 0

/-- The exponent of an inexact decimal. -/
def inexactExponent : Option (Bool × List Char) → Int
  | none => 0
  | some (negative, digits) =>
    if negative then -(boundedExponent digits) else boundedExponent digits

/-- The largest power of ten by which an exact decimal is scaled. -/
def scaleLimit : Nat := 1000000

/-- `n · 10^e`. -/
def shifted (n : Nat) (e : Int) : Rat :=
  if 0 ≤ e then ((n * tenPow e.toNat : Nat) : Rat) else mkRat n (tenPow (-e).toNat)

/-- The exact value.  A fraction needs octal digits after a leading zero and a denominator other
than zero; the exponent of a decimal must fit into 64 bits, and its scale must be within
`scaleLimit`. -/
def exactValue? : Magnitude → Option Rat
  | .fraction numerator denominator => do
    let n ← partValue? numerator
    let d ← partValue? denominator
    if d = 0 then none else some (mkRat n d)
  | .decimal whole _ decimals exponent =>
    let n := digitsValue 10 (whole ++ decimals)
    let e := exponentValue exponent
    if !fitsSigned e then none
    else if n = 0 then some 0
    else
      let scale := e - decimals.length
      if scaleLimit < scale.natAbs then none else some (shifted n scale)

/-- The nearest inexact value with the given sign. -/
def toFloat? (negative : Bool) : Magnitude → Option Float
  | .decimal whole _ decimals exponent =>
    some (Binary64.ofDecimal negative (digitsValue 10 (whole ++ decimals))
      (inexactExponent exponent - decimals.length))
  | m => m.exactValue?.map fun x => Binary64.ofRat (if negative then -x else x)

end Magnitude

/-! ### Real literals -/

/-- The inexact number that a word denotes. -/
def RealNumber.ofWord? (cs : List Char) : Option Float :=
  if cs = "+inf.0".toList then some (Binary64.infinity false)
  else if cs = "-inf.0".toList then some (Binary64.infinity true)
  else if cs = "+nan.0".toList ∨ cs = "-nan.0".toList then some Binary64.notANumber
  else none

/-- Read a real literal under an exactness mark. -/
def RealNumber.parse (mark : Option Exactness) (cs : List Char) : Option RealNumber :=
  match RealNumber.ofWord? cs with
  | some x => if mark = some .exact then none else some (.inexact x)
  | none =>
    let (negative, body) := splitSign cs
    match Magnitude.parse body with
    | none => none
    | some m =>
      if mark = some .exact ∨ (mark = none ∧ !m.isDecimal) then
        m.exactValue?.map fun x => .exact (if negative then -x else x)
      else (m.toFloat? negative).map .inexact

/-! ### All literals -/

namespace Number

/-- Split a text at its last sign, given the character before it; the sign of an exponent does not
count. -/
def splitAfter (before : Char) : List Char → Option (List Char × List Char)
  | [] => none
  | c :: cs =>
    match splitAfter c cs with
    | some (a, b) => some (c :: a, b)
    | none => if isSign c && !isExponentMark before then some ([], c :: cs) else none

/-- Split the text before the final `i` into the literals of the real and the imaginary part. -/
def splitImaginary : List Char → Option (List Char × List Char)
  | [] => none
  | c :: cs =>
    match splitAfter c cs with
    | some (a, b) => some (c :: a, b)
    | none => if isSign c then some ([], c :: cs) else none

/-- A missing real part is an exact zero. -/
def parseRealPart (mark : Option Exactness) (cs : List Char) : Option RealNumber :=
  if cs.isEmpty then some (.exact 0) else RealNumber.parse mark cs

/-- A bare sign as imaginary part is one with that sign. -/
def parseImagPart (mark : Option Exactness) (cs : List Char) : Option RealNumber :=
  RealNumber.parse mark (if cs = ['+'] ∨ cs = ['-'] then cs ++ ['1'] else cs)

/-- Read a rectangular literal. -/
def parseRectangular (mark : Option Exactness) (cs : List Char) : Option Number :=
  if cs.getLast? = some 'i' then
    match splitImaginary cs.dropLast with
    | some (a, b) =>
      match parseRealPart mark a, parseImagPart mark b with
      | some x, some y => some (rectangular x y)
      | _, _ => none
    | none => none
  else none

/-- Read a literal after its exactness mark. -/
def parseMarked (mark : Option Exactness) (cs : List Char) : Option Number :=
  match RealNumber.parse mark cs with
  | some x => some (ofReal x)
  | none => parseRectangular mark cs

/-- Read a literal. -/
def parseChars : List Char → Option Number
  | '#' :: c :: cs =>
    match Exactness.ofLetter? c with
    | some e => parseMarked (some e) cs
    | none => none
  | cs => parseMarked none cs

/-- Read a number literal, if `text` is one. -/
def parse (text : String) : Option Number := parseChars text.toList

end Number

end Scheme
