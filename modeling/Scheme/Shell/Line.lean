/-!
# Lines of input

Input is taken line by line through a buffer of `bufferSize` bytes.  A line ends at a line feed, of
which an immediately preceding carriage return is part, and at the end of the input.  A line that
does not fit into the buffer together with its line feed is handed over in pieces.

* `Line`: a line or a piece of one;
* `Line.next?`: the first line of the bytes that have been read;
* `Line.all`: the lines of a whole input.
-/

namespace Scheme.Shell

/-- A line of input. -/
structure Line where
  bytes : List UInt8
  /-- The line is not a piece of a longer one that goes on. -/
  whole : Bool

namespace Line

/-- The number of bytes that are looked at to find the end of a line. -/
def bufferSize : Nat := 4096

/-- The byte that ends a line. -/
def lineFeed : UInt8 := 10

/-- The byte that may stand before a line feed and is then no part of the line. -/
def carriageReturn : UInt8 := 13

/-- Take a carriage return off the end of a line. -/
def dropReturn (bytes : List UInt8) : List UInt8 :=
  if bytes.getLast? = some carriageReturn then bytes.dropLast else bytes

/-- The first line of the bytes that have been read, and the bytes after it.  There is none as long
as more bytes have to be read; `ended` tells that there are no more.  A full buffer without a line
feed is a piece of a line, up to a carriage return at its end, which may belong to a line feed. -/
def next? (ended : Bool) (bytes : List UInt8) : Option (Line × List UInt8) :=
  let buffer := bytes.take bufferSize
  let line := buffer.takeWhile (· ≠ lineFeed)
  if line.length < buffer.length then
    some (⟨dropReturn line, true⟩, bytes.drop (line.length + 1))
  else if bufferSize ≤ line.length then
    some (⟨dropReturn line, false⟩, bytes.drop (dropReturn line).length)
  else if ended ∧ line.length ≠ 0 then some (⟨line, true⟩, [])
  else none

/-- The lines of an input.  Each takes at least one of the `fuel` bytes. -/
def allFrom : (fuel : Nat) → List UInt8 → List Line
  | 0, _ => []
  | fuel + 1, bytes =>
    match next? true bytes with
    | none => []
    | some (line, rest) => line :: allFrom fuel rest

/-- The lines of an input. -/
def all (bytes : List UInt8) : List Line := allFrom bytes.length bytes

end Line

end Scheme.Shell
