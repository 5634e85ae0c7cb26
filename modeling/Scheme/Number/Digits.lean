import Scheme.Number.Scale

/-!
# Numerals

A natural number and its digits, in both directions.  Long numerals are halved, so that the work is
in a few products and quotients of large numbers.

* `digitsValue`: the number that digits denote, `digitsValue_eq_foldl`: digit by digit;
* `decimalDigits`: the decimal digits of a number, without leading zeros;
* `digitsValue_decimalDigits`: the digits of a number denote it.
-/

namespace Scheme

/-- The value of one digit. -/
def digitValue (c : Char) : Nat := c.toNat - 48

/-- The value of the digits so far, with one more digit. -/
def appendDigit (radix n : Nat) (c : Char) : Nat := radix * n + digitValue c

/-! ### From digits to numbers -/

/-- The number that digits denote in the given radix, in `2^k` pieces. -/
def piecesValue (radix : Nat) : (k : Nat) → List Char → Nat
  | 0, digits => digits.foldl (appendDigit radix) 0
  | k + 1, digits =>
    let half := digits.length / 2
    piecesValue radix k (digits.take half) * Nat.pow radix (digits.length - half) +
      piecesValue radix k (digits.drop half)

/-- The number that digits denote in the given radix, in pieces of about thirty digits. -/
def digitsValue (radix : Nat) (digits : List Char) : Nat :=
  piecesValue radix (Nat.log2 (digits.length / 16)) digits

/-- Digits after a number shift it by their count. -/
theorem foldl_appendDigit (radix n : Nat) (digits : List Char) :
    digits.foldl (appendDigit radix) n =
      n * Nat.pow radix digits.length + digits.foldl (appendDigit radix) 0 := by
  induction digits generalizing n with
  | nil => exact (Nat.mul_one n).symm
  | cons c digits ih =>
    rw [List.foldl_cons, ih, List.foldl_cons, ih (appendDigit radix 0 c), ← Nat.add_assoc]
    unfold appendDigit
    rw [Nat.add_mul, Nat.mul_zero, Nat.zero_add, List.length_cons]
    have h : Nat.pow radix (digits.length + 1) = Nat.pow radix digits.length * radix := rfl
    rw [h, Nat.mul_comm radix n, Nat.mul_assoc, Nat.mul_comm radix]

/-- The pieces denote what the digits denote one by one. -/
theorem piecesValue_eq_foldl (radix k : Nat) (digits : List Char) :
    piecesValue radix k digits = digits.foldl (appendDigit radix) 0 := by
  induction k generalizing digits with
  | zero => rfl
  | succ k ih =>
    unfold piecesValue
    dsimp only
    rw [ih, ih]
    have h := foldl_appendDigit radix
      ((digits.take (digits.length / 2)).foldl (appendDigit radix) 0)
      (digits.drop (digits.length / 2))
    rw [List.length_drop] at h
    rw [← h, ← List.foldl_append, List.take_append_drop]

/-- Digits denote a number digit by digit. -/
theorem digitsValue_eq_foldl (radix : Nat) (digits : List Char) :
    digitsValue radix digits = digits.foldl (appendDigit radix) 0 :=
  piecesValue_eq_foldl radix _ digits

/-! ### From numbers to digits -/

/-- The last `2^k` decimal digits of `n`, zeros included, before `rest`. -/
def paddedDigits : (k n : Nat) → (rest : List Char) → List Char
  | 0, n, rest => Nat.digitChar n :: rest
  | k + 1, n, rest =>
    let half := tenPow (twoPow k)
    paddedDigits k (n / half) (paddedDigits k (n % half) rest)

/-- The decimal digits of a number of at most `2^k` digits before `rest`, without leading zeros. -/
def leadingDigits : (k n : Nat) → (rest : List Char) → List Char
  | 0, n, rest => Nat.digitChar n :: rest
  | k + 1, n, rest =>
    let half := tenPow (twoPow k)
    if n < half then leadingDigits k n rest
    else leadingDigits k (n / half) (paddedDigits k (n % half) rest)

/-- The decimal digits of `n`. -/
def decimalDigits (n : Nat) : List Char := leadingDigits (Nat.log2 (Nat.log2 n + 1)) n []

theorem tenPow_pos (n : Nat) : 0 < tenPow n := Nat.pow_pos (by decide)

/-- A square of digits: twice as many. -/
theorem tenPow_twoPow_succ (k : Nat) :
    tenPow (twoPow (k + 1)) = tenPow (twoPow k) * tenPow (twoPow k) := by
  have h : twoPow (k + 1) = twoPow k + twoPow k := Nat.mul_two (twoPow k)
  rw [h]
  exact Nat.pow_add 10 _ _

/-- A padded numeral appends its digits to the number before it. -/
theorem foldl_paddedDigits (k n a : Nat) (rest : List Char) (h : n < tenPow (twoPow k)) :
    (paddedDigits k n rest).foldl (appendDigit 10) a =
      rest.foldl (appendDigit 10) (a * tenPow (twoPow k) + n) := by
  induction k generalizing n a rest with
  | zero =>
    have h10 : tenPow (twoPow 0) = 10 := rfl
    rw [h10] at h ⊢
    unfold paddedDigits
    rw [List.foldl_cons]
    unfold appendDigit digitValue
    rw [Nat.toNat_digitChar_of_lt_ten h, Nat.add_sub_cancel_left, Nat.mul_comm]
  | succ k ih =>
    unfold paddedDigits
    dsimp only
    have hpos := tenPow_pos (twoPow k)
    rw [tenPow_twoPow_succ] at h ⊢
    rw [ih _ _ _ (Nat.div_lt_of_lt_mul h), ih _ _ _ (Nat.mod_lt n hpos)]
    congr 1
    rw [Nat.add_mul, Nat.mul_assoc, Nat.add_assoc, Nat.div_add_mod']

/-- The digits of a number denote it, also with further digits behind. -/
theorem foldl_leadingDigits (k n : Nat) (rest : List Char) (h : n < tenPow (twoPow k)) :
    (leadingDigits k n rest).foldl (appendDigit 10) 0 = rest.foldl (appendDigit 10) n := by
  induction k generalizing n rest with
  | zero =>
    have hp := foldl_paddedDigits 0 n 0 rest h
    rwa [Nat.zero_mul, Nat.zero_add] at hp
  | succ k ih =>
    unfold leadingDigits
    dsimp only
    have hpos := tenPow_pos (twoPow k)
    by_cases hn : n < tenPow (twoPow k)
    · rw [if_pos hn]
      exact ih n rest hn
    · rw [if_neg hn]
      rw [tenPow_twoPow_succ] at h
      rw [ih _ _ (Nat.div_lt_of_lt_mul h), foldl_paddedDigits _ _ _ _ (Nat.mod_lt n hpos),
        Nat.div_add_mod']

/-- The number of binary digits bounds that of decimal digits. -/
theorem lt_tenPow_log2 (n : Nat) : n < tenPow (twoPow (Nat.log2 (Nat.log2 n + 1))) := by
  have h₁ : n < Nat.pow 2 (Nat.log2 n + 1) := Nat.lt_log2_self
  have h₂ : Nat.log2 n + 1 < Nat.pow 2 (Nat.log2 (Nat.log2 n + 1) + 1) := Nat.lt_log2_self
  have h₃ : Nat.pow 2 (Nat.log2 (Nat.log2 n + 1) + 1) = twoPow (Nat.log2 (Nat.log2 n + 1)) * 2 :=
    rfl
  have h₄ : Nat.pow 2 (Nat.log2 n + 1) ≤ Nat.pow 2 (3 * twoPow (Nat.log2 (Nat.log2 n + 1))) :=
    Nat.pow_le_pow_right (by decide) (by omega)
  have h₅ : Nat.pow 2 (3 * twoPow (Nat.log2 (Nat.log2 n + 1))) =
      Nat.pow 8 (twoPow (Nat.log2 (Nat.log2 n + 1))) := Nat.pow_mul 2 3 _
  have h₆ : Nat.pow 8 (twoPow (Nat.log2 (Nat.log2 n + 1))) ≤
      tenPow (twoPow (Nat.log2 (Nat.log2 n + 1))) := Nat.pow_le_pow_left (by decide) _
  omega

/-- The decimal digits of a number denote it. -/
theorem digitsValue_decimalDigits (n : Nat) : digitsValue 10 (decimalDigits n) = n := by
  rw [digitsValue_eq_foldl]
  exact foldl_leadingDigits _ n [] (lt_tenPow_log2 n)

end Scheme
