import Scheme.Reader.Source
import Scheme.Text.Quoted

/-!
# Errors of reading

A text can end inside a datum, which more text may mend, or it can be malformed, which no text
mends.

* `SyntaxFault`: the ways a text is malformed;
* `ReadError`: the outcomes of reading other than a datum, with `ReadError.message`.
-/

namespace Scheme.Reader

/-- The ways a text is malformed. -/
inductive SyntaxFault where
  /-- A character that cannot be read. -/
  | fault (f : Fault) (place : Option Position)
  /-- A character that starts no word. -/
  | illegalChar (c : Char) (place : Option Position)
  /-- A word that starts with `#` and means nothing. -/
  | badWord (word : String) (place : Option Position)
  /-- A character literal with an unknown name. -/
  | unknownCharacter (name : String) (place : Option Position)
  /-- A backslash before a character that is no escape. -/
  | unknownEscape (c : Char) (place : Option Position)
  /-- Hexadecimal digits that are not ended by a semicolon. -/
  | openHexEscape (place : Option Position)
  /-- Hexadecimal digits that denote no character. -/
  | badHexEscape (kind : Char) (place : Option Position)
  /-- A closing parenthesis where a datum should start. -/
  | unexpectedClose (place : Option Position)
  /-- A dot where a datum should start. -/
  | unexpectedDot (place : Option Position)
  /-- Something other than a closing parenthesis after the tail of a list. -/
  | closeExpected (place : Option Position)
  /-- An item of a bytevector that is no byte. -/
  | badByte (item : String) (place : Option Position)
  /-- More than one datum where one was asked for. -/
  | severalData (count : Nat) (text : String)
  deriving DecidableEq

/-- The text of a fault, with its place. -/
def SyntaxFault.message : SyntaxFault → String
  | .fault f place => f.message ++ " at " ++ Position.text place
  | .illegalChar c place => "illegal char " ++ Text.quoteChar c ++ " at " ++ Position.text place
  | .badWord word place => "bad syntax " ++ word ++ " at " ++ Position.text place
  | .unknownCharacter name place =>
    "unknown character #\\" ++ name ++ " at " ++ Position.text place
  | .unknownEscape c place =>
    "unknown escape \\" ++ String.singleton c ++ " at " ++ Position.text place
  | .openHexEscape place => "\\x escape without ; at " ++ Position.text place
  | .badHexEscape kind place =>
    "bad \\" ++ String.singleton kind ++ " escape at " ++ Position.text place
  | .unexpectedClose place => "unexpected ) at " ++ Position.text place
  | .unexpectedDot place => "unexpected . at " ++ Position.text place
  | .closeExpected place => ") is expected at " ++ Position.text place
  | .badByte item place => "bad byte " ++ item ++ " in #vu8 at " ++ Position.text place
  | .severalData count text => toString count ++ " data in " ++ Text.quoteString text

/-- The outcomes of reading other than a datum. -/
inductive ReadError where
  /-- No datum is left. -/
  | endOfInput
  /-- The text ends inside a datum. -/
  | incomplete
  /-- The text ends after `#\`. -/
  | incompleteChar
  /-- The text is malformed. -/
  | malformed (fault : SyntaxFault)
  deriving DecidableEq

namespace ReadError

/-- More text may mend the error. -/
def isIncomplete : ReadError → Bool
  | .incomplete => true
  | .incompleteChar => true
  | _ => false

/-- The text of the error. -/
def message : ReadError → String
  | .endOfInput => "EOF"
  | .incomplete => "incomplete expression"
  | .incompleteChar => "incomplete expression at " ++ Position.text none
  | .malformed fault => "syntax error: " ++ fault.message

end ReadError

end Scheme.Reader
