import Scheme.Eval.Interpreter

/-!
# Evaluating texts

A console is an interpreter with the texts it has shown.  It reads and evaluates a text datum by
datum and stops at the first error.

* `Console.evalAll`: evaluate a text, and show its values if asked to;
* `FileError`: why a file cannot be read;
* `Console.load`: evaluate a file.
-/

namespace Scheme.Shell

open Reader (Source Token)

/-! ### Files -/

/-- Why a file cannot be read. -/
inductive FileError where
  /-- There is none of that name. -/
  | missing
  /-- A part of its name before the last is not the name of a directory. -/
  | notDirectory
  /-- A part of its name is too long. -/
  | nameTooLong
  /-- It must not be read. -/
  | denied
  /-- It is a directory, which can be opened and not read. -/
  | isDirectory
  deriving DecidableEq

/-- The text of the error about the file `name`.  What goes wrong after the file is opened counts as
an error in its text, at no known place. -/
def FileError.message (name : String) : FileError → String
  | .missing => "open " ++ name ++ ": no such file or directory"
  | .notDirectory => "open " ++ name ++ ": not a directory"
  | .nameTooLong => "open " ++ name ++ ": file name too long"
  | .denied => "open " ++ name ++ ": permission denied"
  | .isDirectory =>
    "syntax error: read " ++ name ++ ": is a directory at " ++ Reader.Position.text none

/-! ### Consoles -/

/-- An interpreter and the texts it has shown. -/
structure Console where
  interpreter : Interpreter
  /-- The text on the standard output. -/
  out : String := ""
  /-- The text on the standard error output. -/
  err : String := ""

namespace Console

/-- Show a text. -/
def print (c : Console) (text : String) : Console := { c with out := c.out ++ text }

/-- Show a complaint. -/
def complain (c : Console) (text : String) : Console := { c with err := c.err ++ text }

/-- The text of an event, with values in quotes where they need them. -/
def eventText (e : Event) : String :=
  let quoted (s : String) : String :=
    if s = "" || s.any fun c =>
        c = ' ' || c = '=' || c = Text.doubleQuote || !Text.isPrintable c then
      Text.quoteString s
    else s
  "level=DEBUG msg=" ++ quoted e.title ++
    String.join (e.details.map fun (key, v) => " " ++ key ++ "=" ++ quoted v) ++ "\n"

/-- Evaluate a datum in the global frame, and show what it writes and which events it records. -/
def eval (fuel : Nat) (c : Console) (d : Sexp) : Outcome × Console :=
  let ⟨interpreter, out, err⟩ := c
  let (outcome, interpreter) := interpreter.evalSexp fuel d Store.global
  let (output, interpreter) := interpreter.takeOutput
  let (events, interpreter) := interpreter.takeEvents
  (outcome, ⟨interpreter, out ++ output, err ++ String.join (events.map eventText)⟩)

/-- The complaint about a result that is no value. -/
def complaint? : Outcome → Option String
  | .value _ => none
  | .error e => some e.message
  | .stuck _ => some "evaluation is stuck"
  | .unfinished => some "evaluation is not finished"

/-- Show a value, unless it is `void`. -/
def printValue (c : Console) (v : Value) : Console :=
  if v.isVoid then c else c.print (v.write ++ "\n")

/-- Read and evaluate data until none is left or one fails.  Every datum takes at least one of the
`count` tokens. -/
def evalTokens (fuel : Nat) (printing : Bool) :
    (count : Nat) → List Token → Console → Option String × Console
  | 0, _, c => (none, c)
  | count + 1, ts, c =>
    match Reader.read ts with
    | (.error .endOfInput, _) => (none, c)
    | (.error e, _) => (some e.message, c)
    | (.ok d, rest) =>
      match c.eval fuel d with
      | (.value v, c) =>
        evalTokens fuel printing count rest (if printing then c.printValue v else c)
      | (outcome, c) => (complaint? outcome, c)

/-- Evaluate all data of a text, and show their values if `printing`.  The result is the complaint
about the first error. -/
def evalAll (fuel : Nat) (printing : Bool) (source : Source) (c : Console) :
    Option String × Console :=
  match Reader.tokens source with
  | .error e => (some e.message, c)
  | .ok ts => c.evalTokens fuel printing (ts.length + 1) ts

/-- Load a file, if it can be read; `true` if all went well. -/
def load (fuel : Nat) (name : String) (file : Except FileError Source) (c : Console) :
    Bool × Console :=
  let (complaint, c) :=
    match file with
    | .error e => (some (e.message name), c)
    | .ok source => c.evalAll fuel false source
  match complaint with
  | none => (true, c)
  | some message => (false, c.complain (name ++ ": " ++ message ++ "\n"))

/-- Evaluate an expression of the command line and show its values; `true` if all went well. -/
def evalExpression (fuel : Nat) (text : String) (c : Console) : Bool × Console :=
  match c.evalAll fuel true (Source.ofString text) with
  | (none, c) => (true, c)
  | (some message, c) => (false, c.complain (message ++ "\n"))

end Console

end Scheme.Shell
