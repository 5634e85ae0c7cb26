import Scheme.Datum.Name
import Scheme.Datum.Walk
import Scheme.Number.Printer
import Scheme.Text.Quoted

/-!
# The text of data

A datum is written so that it can be read back, or displayed, with its strings, characters and
symbols as they are.  A list of a quotation keyword and one operand is abbreviated.

* `quotations`: the quotation keywords and their marks;
* `Datum.abbreviation?`: the mark and the operand of an abbreviated list;
* `Datum.write`, `Datum.display`: the two texts.
-/

namespace Scheme

/-- Run-time objects have a text. -/
class ObjectText (ξ : Type) where
  /-- The text of an object. -/
  objectText : ξ → String

instance : ObjectText Empty := ⟨fun x => nomatch x⟩

/-- The two ways to show a datum: as it is read, or with the bare contents of its texts. -/
inductive Style where
  | written
  | displayed
  deriving DecidableEq

/-- The quotation keywords and their marks. -/
def quotations : List (String × String) :=
  [("quote", "\x27"), ("quasiquote", "\x60"), ("unquote", ","), ("unquote-splicing", ",@"),
   ("syntax", "#\x27"), ("quasisyntax", "#\x60"), ("unsyntax", "#,"), ("unsyntax-splicing", "#,@")]

/-- The mark of a quotation keyword. -/
def quotationMark? (keyword : String) : Option String := quotations.lookup keyword

/-! ### Atoms -/

/-- A character by its code point, between `\x` and a semicolon. -/
def hexEscape (c : Char) : List Char := '\\' :: 'x' :: (Text.hex c.toNat).toList ++ [';']

/-- A character inside bars. -/
def barChar (c : Char) : List Char :=
  if c = '|' ∨ c = '\\' then ['\\', c]
  else if Text.isPrintable c then [c]
  else hexEscape c

/-- A symbol between bars. -/
def barred (name : List Char) : List Char := '|' :: name.flatMap barChar ++ ['|']

/-- A character inside a string literal. -/
def stringChar (c : Char) : List Char :=
  if c = Text.doubleQuote ∨ c = '\\' then ['\\', c]
  else match Text.layoutLetter? c with
    | some letter => ['\\', letter]
    | none => if Text.isPrintable c then [c] else hexEscape c

/-- A string literal. -/
def stringLiteral (s : List Char) : List Char :=
  Text.doubleQuote :: s.flatMap stringChar ++ [Text.doubleQuote]

/-- A character literal. -/
def charLiteral (c : Char) : List Char :=
  '#' :: '\\' ::
    match characterName? c with
    | some name => name.toList
    | none => if Text.isPrintable c then [c] else 'x' :: (Text.hex c.toNat).toList

/-- The text of a symbol. -/
def symbolText (style : Style) (name : List Char) : List Char :=
  if style = .written ∧ needsBars name then barred name else name

/-- The bytes as decimal numbers, with a blank between two. -/
def bytesText (data : List UInt8) : List Char :=
  " ".intercalate (data.map fun b => toString b.toNat) |>.toList

namespace Datum

variable {ι ξ : Type}

/-- The mark and the operand of a two-element list headed by a quotation keyword. -/
def abbreviation? : Datum ι ξ → Option (String × Datum ι ξ)
  | .pair _ (.symbol s) (.pair _ x .nil) => (quotationMark? s).map (·, x)
  | _ => none

variable [ObjectText ξ]

/-- The text of a datum that has no parts; nothing for one that has. -/
def atomText (style : Style) : Datum ι ξ → List Char
  | .symbol s => symbolText style s.toList
  | .boolean b => if b then ['#', 't'] else ['#', 'f']
  | .char c => if style = .written then charLiteral c else [c]
  | .string s => if style = .written then stringLiteral s.toList else s.toList
  | .number n => n.chars
  | .nil => ['(', ')']
  | .bytes _ data => "#vu8(".toList ++ bytesText data ++ [')']
  | .object x => (ObjectText.objectText x).toList
  | .pair .. => []
  | .vector .. => []

/-! ### Compound data -/

mutual

/-- The characters of a datum's text before `rest`. -/
def charsBefore (style : Style) : Datum ι ξ → (rest : List Char) → List Char
  | .pair _ (.symbol s) (.pair _ x .nil), rest =>
    match quotationMark? s with
    | some mark => mark.toList ++ charsBefore style x rest
    | none => '(' :: symbolText style s.toList ++ ' ' :: charsBefore style x (')' :: rest)
  | .pair _ car cdr, rest => '(' :: charsBefore style car (tailBefore style cdr rest)
  | .vector _ [], rest => "#()".toList ++ rest
  | .vector _ (x :: xs), rest =>
    "#(".toList ++ charsBefore style x (itemsBefore style xs (')' :: rest))
  | d, rest => atomText style d ++ rest

/-- What follows the first element of a list, up to its closing parenthesis, before `rest`. -/
def tailBefore (style : Style) : Datum ι ξ → (rest : List Char) → List Char
  | .nil, rest => ')' :: rest
  | .pair _ car cdr, rest => ' ' :: charsBefore style car (tailBefore style cdr rest)
  | .vector _ [], rest => " . #())".toList ++ rest
  | .vector _ (x :: xs), rest =>
    " . #(".toList ++ charsBefore style x (itemsBefore style xs (')' :: ')' :: rest))
  | d, rest => " . ".toList ++ atomText style d ++ ')' :: rest

/-- The items of a vector after its first, each after a blank, before `rest`. -/
def itemsBefore (style : Style) : List (Datum ι ξ) → (rest : List Char) → List Char
  | [], rest => rest
  | x :: xs, rest => ' ' :: charsBefore style x (itemsBefore style xs rest)

end

/-- The characters of a datum's text. -/
def chars (style : Style) (d : Datum ι ξ) : List Char := charsBefore style d []

/-- The text that reads back as the datum. -/
def write (d : Datum ι ξ) : String := String.ofList (d.chars .written)

/-- The text with strings, characters and symbols as they are. -/
def display (d : Datum ι ξ) : String := String.ofList (d.chars .displayed)

end Datum

end Scheme
