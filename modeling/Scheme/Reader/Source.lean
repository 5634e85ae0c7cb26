import Scheme.Reader.Script

/-!
# Source texts

A source text is a list of characters, each with its line and column and its fault, if it has one.

* `Position`: a line and a column, counted from one;
* `Glyph`: a character with its position and fault;
* `Source.ofScript`: the glyphs of a script.
-/

namespace Scheme.Reader

/-- A line and a column, both counted from one. -/
structure Position where
  line : Nat
  column : Nat
  deriving DecidableEq

/-- The text of a position; one that is not known names the input only. -/
def Position.text : Option Position → String
  | none => "<input>"
  | some p => "<input>:" ++ toString p.line ++ ":" ++ toString p.column

/-- A character of a source text. -/
structure Glyph where
  char : Char
  position : Position
  fault : Option Fault
  deriving DecidableEq

/-- A source text: its glyphs and the position after the last. -/
structure Source where
  glyphs : List Glyph
  stop : Position

/-- The position after a character. -/
def Position.next (p : Position) (c : Char) : Position :=
  if c = '\n' then ⟨p.line + 1, 1⟩ else ⟨p.line, p.column + 1⟩

/-- The glyphs of a script that starts at position `p`, after the glyphs in `found`, last first. -/
def locate : Script → Position → List Glyph → Source
  | [], p, found => ⟨found.reverse, p⟩
  | (c, fault) :: rest, p, found => locate rest (p.next c) (⟨c, p, fault⟩ :: found)

/-- The byte-order mark. -/
def byteOrderMark : Char := Char.ofNat 0xfeff

namespace Source

/-- The source text of a script.  A byte-order mark in front takes up a column and is skipped. -/
def ofScript (script : Script) : Source :=
  match script with
  | (c, _) :: rest =>
    if c = byteOrderMark then locate rest ⟨1, 2⟩ [] else locate script ⟨1, 1⟩ []
  | [] => ⟨[], ⟨1, 1⟩⟩

/-- The source text of a string. -/
def ofString (s : String) : Source := ofScript (Script.ofString s)

/-- The source text of encoded bytes. -/
def ofBytes (bytes : List UInt8) : Source := ofScript (Script.ofBytes bytes)

end Source

end Scheme.Reader
