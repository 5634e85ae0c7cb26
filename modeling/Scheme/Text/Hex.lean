/-!
# Hexadecimal digits

Code points are written in lower-case hexadecimal and read in either case.

* `Text.hex`: the shortest hexadecimal text of a number, `Text.hexPadded` with leading zeros;
* `Text.hexValue?`: the value of one digit, `Text.ofHex?` of a non-empty run of digits;
* `Text.hexChar?`: the character with the code point that digits denote.
-/

namespace Scheme.Text

/-- The shortest lower-case hexadecimal text of `n`. -/
def hex (n : Nat) : String :=
  String.ofList (Nat.toDigits 16 n)

/-- The hexadecimal text of `n`, with leading zeros up to `width` digits. -/
def hexPadded (width n : Nat) : String :=
  let digits := Nat.toDigits 16 n
  String.ofList (List.replicate (width - digits.length) '0' ++ digits)

/-- The value of a hexadecimal digit of either case. -/
def hexValue? (c : Char) : Option Nat :=
  if '0' ≤ c ∧ c ≤ '9' then some (c.toNat - 48)
  else if 'a' ≤ c ∧ c ≤ 'f' then some (c.toNat - 87)
  else if 'A' ≤ c ∧ c ≤ 'F' then some (c.toNat - 55)
  else none

/-- `c` is a hexadecimal digit. -/
def isHexDigit (c : Char) : Bool := (hexValue? c).isSome

/-- The number that a non-empty run of hexadecimal digits denotes. -/
def ofHex? (digits : List Char) : Option Nat :=
  if digits.isEmpty then none
  else digits.foldlM (fun n c => (hexValue? c).map (16 * n + ·)) 0

/-- The number that a non-empty run of hexadecimal digits denotes, as a word, if 32 bits are enough
for it. -/
def hexWord? (digits : List Char) : Option UInt64 :=
  (ofHex? digits).bind fun n => if n ≤ 0xFFFFFFFF then some (.ofNat n) else none

/-- The code point that a word is narrowed to: its last 32 bits, as a number with a sign. -/
def codePoint (n : UInt64) : Int32 := n.toUInt32.toInt32

/-- A code point is a Unicode scalar value. -/
def isScalar (r : Int32) : Bool := (0 ≤ r && r < 0xD800) || (0xDFFF < r && r ≤ 0x10FFFF)

/-- The character with a code point that is a Unicode scalar value. -/
def scalar? (r : Int32) : Option Char :=
  if isScalar r then some (Char.ofNat r.toNatClampNeg) else none

/-- The character that a non-empty run of hexadecimal digits denotes. -/
def hexChar? (digits : List Char) : Option Char :=
  (hexWord? digits).bind fun n => scalar? (codePoint n)

end Scheme.Text
