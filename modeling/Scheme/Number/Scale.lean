/-!
# Powers of two and ten

The scales of binary and decimal numbers, and the bounds of 64-bit words.
-/

namespace Scheme

/-- The `n`-th power of two. -/
def twoPow (n : Nat) : Nat := Nat.pow 2 n

/-- The `n`-th power of ten. -/
def tenPow (n : Nat) : Nat := Nat.pow 10 n

/-- The first natural number that needs more than 63 bits. -/
def signBound : Nat := 0x8000000000000000

/-- The first natural number that needs more than 64 bits. -/
def wordBound : Nat := 0x10000000000000000

/-- `i` fits into 64 bits with a sign. -/
def fitsSigned (i : Int) : Bool := -(signBound : Int) ≤ i && i < signBound

end Scheme
