import Scheme.Datum.Walk
import Scheme.Reader.Source

/-!
# Tokens

The lexical units from which data are built.  A token knows where it starts, unless it is made of
several parts.
-/

namespace Scheme.Reader

/-- The kinds of lexical units. -/
inductive TokenKind where
  /-- A datum of its own. -/
  | atom (d : Sexp)
  /-- The opening parenthesis of a list. -/
  | listOpen
  /-- The opening of a vector, `#(`. -/
  | vectorOpen
  /-- The opening of a bytevector, `#vu8(`. -/
  | bytesOpen
  /-- A closing parenthesis. -/
  | close
  /-- The dot before the tail of a list. -/
  | dot
  /-- A quotation mark, with its keyword. -/
  | quotation (keyword : String)
  /-- The mark `#;` that comments out the next datum. -/
  | datumComment

/-- A lexical unit and where it starts. -/
structure Token where
  kind : TokenKind
  place : Option Position

end Scheme.Reader
