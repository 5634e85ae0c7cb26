import Scheme.Number.Scale
import Scheme.Text.Quoted

/-!
# Options of the command line

A flag is `-name` or `--name`; its value follows after `=` or is the next argument.  Flags end at
the first argument that is none, at `-`, and after `--`.

* `IntegerText.parse`: the integers that flags take, in decimal or with a base mark;
* `Options`: what a command line asks for;
* `Command.parse`: a command line as options, as a call for help, or as a mistake.
-/

namespace Scheme.Shell

/-! ### Values of flags -/

/-- Why a text is not the value of a flag. -/
inductive ValueError where
  | malformed
  | outOfRange
  deriving DecidableEq

/-- The text of a refusal. -/
def ValueError.message : ValueError → String
  | .malformed => "parse error"
  | .outOfRange => "value out of range"

namespace IntegerText

/-- The base that the first characters of a number mark, and the digits after the mark. -/
def splitBase : List Char → Nat × List Char
  | '0' :: c :: d :: rest =>
    if c = 'b' ∨ c = 'B' then (2, d :: rest)
    else if c = 'o' ∨ c = 'O' then (8, d :: rest)
    else if c = 'x' ∨ c = 'X' then (16, d :: rest)
    else (8, c :: d :: rest)
  | '0' :: rest => (8, rest)
  | cs => (10, cs)

/-- The value of a digit or letter. -/
def digitValue? (c : Char) : Option Nat :=
  if '0' ≤ c ∧ c ≤ '9' then some (c.toNat - 48)
  else if 'a' ≤ c ∧ c ≤ 'z' then some (c.toNat - 87)
  else if 'A' ≤ c ∧ c ≤ 'Z' then some (c.toNat - 55)
  else none

/-- The value of digits after a value read so far; underscores are skipped, and the first digit
beyond 64 bits ends the reading. -/
def digits (base : Nat) : Nat → List Char → Except ValueError Nat
  | n, [] => .ok n
  | n, c :: cs =>
    if c = '_' then digits base n cs
    else
      match digitValue? c with
      | none => .error .malformed
      | some d =>
        if base ≤ d then .error .malformed
        else if wordBound ≤ n * base + d then .error .outOfRange
        else digits base (n * base + d) cs

/-- Every underscore stands between digits; `digit` tells whether a digit or a base mark comes
before. -/
def underscoresFit : (digit : Bool) → List Char → Bool
  | digit, [] => digit
  | digit, c :: cs => if c = '_' then digit && underscoresFit false cs else underscoresFit true cs

/-- The value of an unsigned number. -/
def magnitude (cs : List Char) : Except ValueError Nat :=
  if cs.isEmpty then .error .malformed
  else
    let (base, rest) := splitBase cs
    match digits base 0 rest with
    | .error e => .error e
    | .ok n =>
      if cs.contains '_' && !underscoresFit (rest.length < cs.length) rest then .error .malformed
      else .ok n

/-- The value of a number with an optional sign that fits into 64 bits. -/
def parse (text : String) : Except ValueError Int :=
  let (negative, cs) : Bool × List Char :=
    match text.toList with
    | '-' :: cs => (true, cs)
    | '+' :: cs => (false, cs)
    | cs => (false, cs)
  match magnitude cs with
  | .error e => .error e
  | .ok n =>
    if negative then (if signBound < n then .error .outOfRange else .ok (-n))
    else if signBound ≤ n then .error .outOfRange
    else .ok n

end IntegerText

/-- The texts of truth values. -/
def truthValue? (text : String) : Option Bool :=
  if ["1", "t", "T", "true", "TRUE", "True"].contains text then some true
  else if ["0", "f", "F", "false", "FALSE", "False"].contains text then some false
  else none

/-! ### Options -/

/-- What a command line asks for. -/
structure Options where
  /-- The expression to evaluate, if it is not empty. -/
  expression : String := ""
  /-- Events are shown. -/
  debug : Bool := false
  /-- The bound on the depth of evaluations. -/
  maxDepth : Int := 0
  /-- The arguments after the flags. -/
  arguments : List String := []

namespace Options

/-- The loop of reading and evaluating is asked for by a final `-`. -/
def endsInDash (o : Options) : Bool := o.arguments.getLast? = some "-"

/-- The files to load. -/
def files (o : Options) : List String :=
  if o.endsInDash then o.arguments.dropLast else o.arguments

/-- The loop of reading and evaluating runs last. -/
def interactive (o : Options) : Bool :=
  o.endsInDash || (o.arguments.isEmpty && o.expression = "")

end Options

/-- What to do about a command line. -/
inductive Command where
  | run (options : Options)
  | help
  | mistake (message : String)

/-- The description of the command line. -/
def usage : String :=
  "usage: r6 [flags] [file ...] [-]\n" ++
  "  -debug\n    \tlog evaluation to stderr\n" ++
  "  -e expr\n    \tevaluate expr and print its value\n" ++
  "  -max-depth int\n    \tbound the recursion depth (0 means unbounded)\n"

namespace Command

/-- A flag taken apart: its name, and its value if it has one. -/
def splitFlag (text : List Char) : String × Option String :=
  match text with
  | [] => ("", none)
  | c :: rest =>
    let name := c :: rest.takeWhile (· ≠ '=')
    match rest.dropWhile (· ≠ '=') with
    | [] => (String.ofList name, none)
    | _ :: value => (String.ofList name, some (String.ofList value))

/-- The options after the flag `-debug`. -/
def setDebug (o : Options) : Option String → Except String Options
  | none => .ok { o with debug := true }
  | some text =>
    match truthValue? text with
    | some b => .ok { o with debug := b }
    | none =>
      .error ("invalid boolean value " ++ Text.quoteString text ++ " for -debug: " ++
        ValueError.message .malformed)

/-- The options after a flag that takes a value. -/
def setValue (o : Options) (name value : String) : Except String Options :=
  if name = "e" then .ok { o with expression := value }
  else
    match IntegerText.parse value with
    | .ok n => .ok { o with maxDepth := n }
    | .error e =>
      .error ("invalid value " ++ Text.quoteString value ++ " for flag -" ++ name ++ ": "
        ++ e.message)

/-- The text of a flag without its dashes, or nothing if the argument is no flag. -/
def flagText? (arg : String) : Option (List Char) :=
  match arg.toList with
  | '-' :: '-' :: rest => some rest
  | '-' :: c :: rest => some (c :: rest)
  | _ => none

/-- Read the flags in front of the arguments. -/
def parseFrom (o : Options) : List String → Command
  | [] => .run o
  | arg :: args =>
    match flagText? arg with
    | none => .run { o with arguments := arg :: args }
    | some text =>
      if arg = "--" then .run { o with arguments := args }
      else if text.isEmpty || text.head? = some '-' || text.head? = some '=' then
        .mistake ("bad flag syntax: " ++ arg)
      else
        let (name, value) := splitFlag text
        if name = "debug" then
          match setDebug o value with
          | .ok o => parseFrom o args
          | .error message => .mistake message
        else if name = "e" ∨ name = "max-depth" then
          match value, args with
          | some v, args =>
            match setValue o name v with
            | .ok o => parseFrom o args
            | .error message => .mistake message
          | none, v :: args =>
            match setValue o name v with
            | .ok o => parseFrom o args
            | .error message => .mistake message
          | none, [] => .mistake ("flag needs an argument: -" ++ name)
        else if name = "help" ∨ name = "h" then .help
        else .mistake ("flag provided but not defined: -" ++ name)

/-- Read a command line. -/
def parse (args : List String) : Command := parseFrom {} args

end Command

end Scheme.Shell
