import Scheme.Text.Hex
import Scheme.Text.Printable

/-!
# Quoted text in messages

Messages quote a character between single quotes and a text between double quotes.  The quote itself
and the backslash are escaped, the layout characters have their letter, other printable characters
stand for themselves, and the rest is written by its code point with two, four or eight digits.
-/

namespace Scheme.Text

/-- The single quote. -/
def singleQuote : Char := '\x27'

/-- The double quote. -/
def doubleQuote : Char := '\x22'

/-- The letter that names a layout character after a backslash. -/
def layoutLetter? (c : Char) : Option Char :=
  match c.toNat with
  | 7 => some 'a'
  | 8 => some 'b'
  | 9 => some 't'
  | 10 => some 'n'
  | 11 => some 'v'
  | 12 => some 'f'
  | 13 => some 'r'
  | _ => none

/-- `c` as it stands inside a text quoted by `quote`. -/
def quotedChar (quote c : Char) : String :=
  if c = quote ∨ c = '\\' then String.ofList ['\\', c]
  else if isPrintable c then String.singleton c
  else match layoutLetter? c with
    | some letter => String.ofList ['\\', letter]
    | none =>
      if c.toNat < 0x80 then "\\x" ++ hexPadded 2 c.toNat
      else if c.toNat < 0x10000 then "\\u" ++ hexPadded 4 c.toNat
      else "\\U" ++ hexPadded 8 c.toNat

/-- `cs` between two characters `quote`. -/
def quotedWith (quote : Char) (cs : List Char) : String :=
  String.singleton quote ++ String.join (cs.map (quotedChar quote)) ++ String.singleton quote

/-- A character between single quotes. -/
def quoteChar (c : Char) : String := quotedWith singleQuote [c]

/-- A text between double quotes. -/
def quoteString (s : String) : String := quotedWith doubleQuote s.toList

end Scheme.Text
