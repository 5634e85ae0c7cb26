import Scheme.Datum.Printer
import Scheme.Reader.Lexer

/-!
# Building data from tokens

Data are built with a stack of what is open: lists, vectors and bytevectors with the items found so
far, quotation marks that wait for their operand, and comment marks that wait for the datum they
drop.  Every token either opens something, completes a datum or fails, so reading always ends.

* `Pending`: what is open;
* `complete`: what happens when a datum is complete;
* `read`: the next datum, and the tokens after it, also after an error;
* `readAll`, `readOne`: all data of a text, and the only one.
-/

namespace Scheme.Reader

/-- Something open that waits for a datum or for its end.  Items found so far are kept last
first. -/
inductive Pending where
  /-- A list before its dot or end. -/
  | list (items : List Sexp)
  /-- A list after its dot. -/
  | dotted (items : List Sexp)
  /-- A list after its tail. -/
  | closing (items : List Sexp) (tail : Sexp)
  /-- A vector. -/
  | vector (items : List Sexp)
  /-- A bytevector and where it starts. -/
  | bytes (place : Option Position) (items : List Sexp)
  /-- A quotation mark. -/
  | quotation (keyword : String)
  /-- A mark that comments out a datum. -/
  | comment

/-- What a complete datum leads to. -/
inductive Progress where
  /-- Nothing was open: this is the datum. -/
  | done (d : Sexp)
  /-- More tokens are needed. -/
  | more (stack : List Pending)

/-- Hand a complete datum to what is open. -/
def complete (d : Sexp) : List Pending → Progress
  | [] => .done d
  | .list items :: stack => .more (.list (d :: items) :: stack)
  | .dotted items :: stack => .more (.closing items d :: stack)
  | .closing items tail :: stack => .more (.closing items tail :: stack)
  | .vector items :: stack => .more (.vector (d :: items) :: stack)
  | .bytes place items :: stack => .more (.bytes place (d :: items) :: stack)
  | .quotation keyword :: stack => complete (Sexp.ofList [.symbol keyword, d] .nil) stack
  | .comment :: stack => .more stack

/-- The byte that an item of a bytevector denotes. -/
def byte? : Sexp → Option UInt8
  | .number n => (n.uint64?.filter (· ≤ 255)).map UInt8.ofNat
  | _ => none

/-- The bytevector of `items`, unless one of them is no byte. -/
def bytesOf (place : Option Position) : List Sexp → Except ReadError (List UInt8)
  | [] => .ok []
  | d :: items =>
    match byte? d with
    | none => malformedAt (.badByte d.write) place
    | some b =>
      match bytesOf place items with
      | .ok bs => .ok (b :: bs)
      | .error e => .error e

/-- The datum that a closing parenthesis completes, and what is then open. -/
def closeTop (place : Option Position) : List Pending → Except ReadError (Sexp × List Pending)
  | .list items :: stack => .ok (Sexp.ofList items.reverse .nil, stack)
  | .closing items tail :: stack => .ok (Sexp.ofList items.reverse tail, stack)
  | .vector items :: stack => .ok (.vector () items.reverse, stack)
  | .bytes start items :: stack =>
    match bytesOf start items.reverse with
    | .ok data => .ok (.bytes () data, stack)
    | .error e => .error e
  | _ => malformedAt .unexpectedClose place

/-- A list after its tail is on top. -/
def isClosing : List Pending → Bool
  | .closing .. :: _ => true
  | _ => false

/-- Read the next datum with `stack` open, and give the tokens after it.  A dot at the start of a
list is refused before it is taken; all other tokens that are refused are taken. -/
def readWith : List Pending → List Token → Except ReadError Sexp × List Token
  | stack, [] => (.error (if stack.isEmpty then .endOfInput else .incomplete), [])
  | stack, t :: rest =>
    match t.kind, stack with
    | .datumComment, stack => readWith (.comment :: stack) rest
    | .close, stack =>
      match closeTop t.place stack with
      | .error e => (.error e, rest)
      | .ok (d, stack) =>
        match complete d stack with
        | .done d => (.ok d, rest)
        | .more stack => readWith stack rest
    | .dot, .list [] :: _ => (malformedAt .unexpectedDot t.place, t :: rest)
    | .dot, .list items :: stack => readWith (.dotted items :: stack) rest
    | kind, stack =>
      if isClosing stack then (malformedAt .closeExpected t.place, rest)
      else
        match kind with
        | .listOpen => readWith (.list [] :: stack) rest
        | .vectorOpen => readWith (.vector [] :: stack) rest
        | .bytesOpen => readWith (.bytes t.place [] :: stack) rest
        | .quotation keyword => readWith (.quotation keyword :: stack) rest
        | .atom d =>
          match complete d stack with
          | .done d => (.ok d, rest)
          | .more stack => readWith stack rest
        | _ => (malformedAt .unexpectedDot t.place, rest)

/-- Read the next datum, and give the tokens after it. -/
def read (ts : List Token) : Except ReadError Sexp × List Token := readWith [] ts

/-- Read data until none is left.  Every datum takes at least one of the `fuel` tokens. -/
def readAllFrom : (fuel : Nat) → List Token → Except ReadError (List Sexp)
  | 0, _ => .ok []
  | fuel + 1, ts =>
    match read ts with
    | (.error .endOfInput, _) => .ok []
    | (.error e, _) => .error e
    | (.ok d, rest) =>
      match readAllFrom fuel rest with
      | .ok more => .ok (d :: more)
      | .error e => .error e

/-- Read all data of a source text. -/
def readAll (source : Source) : Except ReadError (List Sexp) :=
  match tokens source with
  | .ok ts => readAllFrom (ts.length + 1) ts
  | .error e => .error e

/-- Read all data of a text. -/
def readText (text : String) : Except ReadError (List Sexp) := readAll (Source.ofString text)

/-- The only datum among `data`, which are those of `text`. -/
def only (text : String) : List Sexp → Except ReadError Sexp
  | [] => .error .endOfInput
  | [d] => .ok d
  | data => .error (.malformed (.severalData data.length text))

/-- Read the only datum of a text. -/
def readOne (text : String) : Except ReadError Sexp :=
  match readText text with
  | .ok data => only text data
  | .error e => .error e

end Scheme.Reader
