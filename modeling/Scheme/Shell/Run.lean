import Scheme.Shell.Options
import Scheme.Shell.Repl

/-!
# A whole run of the command

A run loads files, evaluates an expression and then, if asked to, reads and evaluates its input line
by line.  It stops at the first file or expression that fails.

* `Result`: what a run leaves behind;
* `loadAll`: the files in order;
* `run`: a run, given its arguments, files and input.
-/

namespace Scheme.Shell

open Reader (Script Source)

/-- The name of the file that keeps the history of inputs. -/
def historyFile : String := ".r6_history"

/-- What a run leaves behind. -/
structure Result where
  out : String
  err : String
  /-- The exit status. -/
  code : Nat
  /-- The inputs that the run has written to the history file, if it has written it. -/
  history : Option History

/-- The console that a run starts with. -/
def startConsole (o : Options) : Console := ⟨Interpreter.start o.maxDepth o.debug, "", ""⟩

/-- Load files in order, up to the first that fails; `true` if none does. -/
def loadAll (fuel : Nat) (file : String → Except FileError Source) :
    List String → Console → Bool × Console
  | [], c => (true, c)
  | name :: names, c =>
    match c.load fuel name (file name) with
    | (true, c) => loadAll fuel file names c
    | (false, c) => (false, c)

/-- Evaluate the expression of the command line, if there is one. -/
def evalOption (fuel : Nat) (o : Options) (c : Console) : Bool × Console :=
  if o.expression = "" then (true, c) else c.evalExpression fuel o.expression

/-- Read and evaluate lines. -/
def interact (fuel : Nat) (c : Console) (history : History) (lines : List Script) : Repl :=
  (lines.foldl (Repl.feed fuel) (Repl.begin c history)).finish

/-- The lines of an input as scripts. -/
def inputLines (input : List UInt8) : List Script :=
  (Line.all input).map fun line => Script.ofBytes line.bytes

/-- Run with options. -/
def runOptions (fuel : Nat) (o : Options) (file : String → Except FileError Source)
    (history input : List UInt8) : Result :=
  match loadAll fuel file o.files (startConsole o) with
  | (false, c) => ⟨c.out, c.err, 1, none⟩
  | (true, c) =>
    match evalOption fuel o c with
    | (false, c) => ⟨c.out, c.err, 1, none⟩
    | (true, c) =>
      if o.interactive then
        let r := interact fuel c (History.ofBytes history) (inputLines input)
        ⟨r.console.out, r.console.err, 0, some r.history⟩
      else ⟨c.out, c.err, 0, none⟩

/-- Run with the given arguments, files, contents of the history file and input. -/
def run (fuel : Nat) (args : List String) (file : String → Except FileError Source)
    (history input : List UInt8) : Result :=
  match Command.parse args with
  | .help => ⟨"", usage, 0, none⟩
  | .mistake message => ⟨"", message ++ "\n" ++ usage, 2, none⟩
  | .run o => runOptions fuel o file history input

end Scheme.Shell
