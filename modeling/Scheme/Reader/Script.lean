/-!
# Scripts

A script is a text as it comes in: characters, some of which can be at fault.  A byte that is not
part of a well-formed encoding is read as the replacement character and kept, so that the script can
be written as it came; the character NUL is not accepted.

* `Fault`: what is wrong with a character;
* `Script.ofString`, `Script.ofBytes`: the scripts of a text and of encoded bytes;
* `Script.text`, `Script.bytes`: the way back.
-/

namespace Scheme.Reader

/-- What is wrong with a character. -/
inductive Fault where
  /-- It stands for a byte that is part of no well-formed character. -/
  | malformed (byte : UInt8)
  | nul
  deriving DecidableEq

/-- The text of a fault. -/
def Fault.message : Fault → String
  | .malformed _ => "invalid UTF-8 encoding"
  | .nul => "invalid character NUL"

/-- A text whose characters can be at fault. -/
abbrev Script := List (Char × Option Fault)

namespace Script

/-! ### From texts and bytes -/

/-- A well-formed character. -/
def mark (c : Char) : Char × Option Fault := (c, if c.toNat = 0 then some .nul else none)

/-- The script of a text. -/
def ofString (s : String) : Script := s.toList.map mark

/-- The value of the continuation bytes that start `bytes`, appended to `high`. -/
def continuation (high : Nat) : Nat → List UInt8 → Option Nat
  | 0, _ => some high
  | _ + 1, [] => none
  | n + 1, b :: bytes =>
    if 0x80 ≤ b ∧ b < 0xc0 then continuation (high * 64 + (b.toNat - 0x80)) n bytes else none

/-- The first character of well-formed `bytes` that start with `b`, and the number of bytes after
`b` that belong to it. -/
def decodeChar (b : UInt8) (bytes : List UInt8) : Option (Char × Nat) :=
  let read (high least more : Nat) : Option (Char × Nat) :=
    match continuation high more bytes with
    | some n => if h : least ≤ n ∧ n.isValidChar then some (Char.ofNatAux n h.2, more) else none
    | none => none
  if b < 0x80 then read b.toNat 0 0
  else if 0xc0 ≤ b ∧ b < 0xe0 then read (b.toNat - 0xc0) 0x80 1
  else if 0xe0 ≤ b ∧ b < 0xf0 then read (b.toNat - 0xe0) 0x800 2
  else if 0xf0 ≤ b ∧ b < 0xf8 then read (b.toNat - 0xf0) 0x10000 3
  else none

/-- The character that stands for a malformed byte. -/
def replacement : Char := Char.ofNat 0xfffd

/-- The script that `bytes` encode.  A byte that starts no well-formed character stands alone. -/
def ofBytes : List UInt8 → Script
  | [] => []
  | b :: bytes =>
    match decodeChar b bytes with
    | some (c, more) => mark c :: ofBytes (bytes.drop more)
    | none => (replacement, some (.malformed b)) :: ofBytes bytes
termination_by bytes => bytes.length
decreasing_by
  all_goals
    simp only [List.length_drop, List.length_cons]
    omega

/-! ### To texts and bytes -/

/-- No byte of the script is malformed. -/
def isWellFormed (s : Script) : Bool :=
  s.all fun (_, fault) =>
    match fault with
    | some (.malformed _) => false
    | _ => true

/-- The characters of the script. -/
def text (s : Script) : String := String.ofList (s.map (·.1))

/-- The bytes that the script comes from. -/
def bytes (s : Script) : List UInt8 :=
  s.flatMap fun (c, fault) =>
    match fault with
    | some (.malformed b) => [b]
    | _ => String.utf8EncodeChar c

end Script

end Scheme.Reader
