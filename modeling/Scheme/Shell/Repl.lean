import Scheme.Shell.Console
import Scheme.Shell.History

/-!
# The loop of reading, evaluating and printing

Lines are collected until they hold complete data, then evaluated.

* `Repl`: the state between two lines;
* `Repl.begin`: the first prompt;
* `Repl.feed`: a line, up to the next prompt;
* `Repl.finish`: the end of the input.
-/

namespace Scheme.Shell

open Reader (Script Source)

/-- The state between two lines: the console, the lines that wait for more, and the inputs so
far. -/
structure Repl where
  console : Console
  /-- The lines that do not yet hold complete data; empty if there are none. -/
  pending : Script
  history : History

namespace Repl

/-- The prompt for a new input or for the next line of one. -/
def prompt (r : Repl) : String := if r.pending.isEmpty then "> " else "| "

/-- Show the prompt. -/
def showPrompt (r : Repl) : Repl := { r with console := r.console.print r.prompt }

/-- Start with the given console and inputs. -/
def begin (console : Console) (history : History) : Repl := (Repl.mk console [] history).showPrompt

/-- The input holds nothing but white space. -/
def isBlankText (input : Script) : Bool := input.all fun (c, _) => Text.isBlank c

/-- Evaluate an input. -/
def evaluate (fuel : Nat) (r : Repl) (input : Script) : Repl :=
  let ⟨console, _, history⟩ := r
  if isBlankText input then ⟨console, [], history⟩
  else
    match console.evalAll fuel true (Source.ofScript input) with
    | (none, console) => ⟨console, [], history.add input⟩
    | (some message, console) =>
      ⟨console.complain ("*** " ++ message ++ "\n"), [], history.add input⟩

/-- The input that a line completes or continues. -/
def inputWith (r : Repl) (line : Script) : Script :=
  if r.pending.isEmpty then line else r.pending ++ Script.mark '\n' :: line

/-- The input ends inside a datum. -/
def isIncomplete (input : Script) : Bool :=
  match Reader.readAll (Source.ofScript input) with
  | .error e => e.isIncomplete
  | .ok _ => false

/-- Take a line: wait for more if the input is incomplete, and evaluate it otherwise. -/
def feed (fuel : Nat) (r : Repl) (line : Script) : Repl :=
  let input := r.inputWith line
  if isIncomplete input then { r with pending := input }.showPrompt
  else (r.evaluate fuel input).showPrompt

/-- The input is at its end. -/
def finish (r : Repl) : Repl := { r with console := r.console.print "Goodbye\n" }

end Repl

end Scheme.Shell
