import Scheme.Reader.Script
import Scheme.Shell.Line

/-!
# The history of inputs

The history holds the last inputs, each in one line, and no input twice in a row.

* `History.add`: the history after an input;
* `History.ofBytes`, `History.script`: the history that a file holds, and the file of a history.
-/

namespace Scheme.Shell

open Reader (Script)

/-- The inputs so far, the oldest first. -/
abbrev History := List Script

namespace History

/-- The largest number of inputs that are kept. -/
def limit : Nat := 1000

/-- Drop the oldest inputs beyond the limit. -/
def trim (h : History) : History := h.drop (h.length - limit)

/-- An input in one line, with its line ends as blanks. -/
def inOneLine (input : Script) : Script :=
  input.map fun (c, fault) => (if c = '\n' then ' ' else c, fault)

/-- Add an input, unless it is the same as the last. -/
def add (h : History) (input : Script) : History :=
  if h.getLast? = some (inOneLine input) then h else trim (h ++ [inOneLine input])

/-- The inputs that lines hold, up to the first that is too long or malformed. -/
def ofLines : List Line → History
  | [] => []
  | line :: lines =>
    let script := Script.ofBytes line.bytes
    if line.whole && script.isWellFormed then script :: ofLines lines else []

/-- The inputs that a file holds. -/
def ofBytes (bytes : List UInt8) : History := trim (ofLines (Line.all bytes))

/-- The script of a file that holds the inputs. -/
def script (h : History) : Script := h.flatMap (· ++ Script.ofString "\n")

end History

end Scheme.Shell
