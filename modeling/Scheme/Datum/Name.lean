import Scheme.Number.Literal
import Scheme.Text.Blank
import Scheme.Text.Hex
import Scheme.Text.Printable

/-!
# Names of symbols and characters

A symbol whose name would not read back as that symbol is written between bars.  Some characters
that cannot be seen have names.

* `isNameChar`: the characters that make up a word of the language;
* `needsBars`: the names that are written between bars;
* `characterNames`: the named characters.
-/

namespace Scheme

/-- The characters that end a word. -/
def delimiters : List Char := [';', '(', ')', '\x27', '\x60', ',', '\x22', '|']

/-- `c` can be part of a word. -/
def isNameChar (c : Char) : Bool :=
  Text.isPrintable c && !Text.isBlank c && !delimiters.contains c

/-- The name would not read back as a symbol unless it is written between bars. -/
def needsBars (name : List Char) : Bool :=
  name.isEmpty || name = ['.'] || name.head? = some '#' || !name.all isNameChar ||
    (Number.parseChars name).isSome

/-- The characters with a name. -/
def characterNames : List (Char × String) :=
  [(Char.ofNat 0x00, "nul"), (Char.ofNat 0x07, "alarm"), (Char.ofNat 0x08, "backspace"),
   (Char.ofNat 0x09, "tab"), (Char.ofNat 0x0a, "newline"), (Char.ofNat 0x0b, "vtab"),
   (Char.ofNat 0x0c, "page"), (Char.ofNat 0x0d, "return"), (Char.ofNat 0x1b, "escape"),
   (Char.ofNat 0x20, "space"), (Char.ofNat 0x7f, "delete")]

/-- The name of a character. -/
def characterName? (c : Char) : Option String := characterNames.lookup c

/-- The character with a given name. -/
def characterNamed? (name : String) : Option Char :=
  (characterNames.find? fun (_, n) => n == name).map (·.1)

end Scheme
