import Mathlib
import Scheme.Proofs.NumberText

/-!
# Fractions

A literal of digits denotes its decimal value, with any number of zeros in front.  A part of a
fraction with a zero in front is octal, so that the same digits may denote another number there, or
none.

* `numeral`: the number that digits denote in a radix, by their places;
* `DenotesPart`: what digits denote as a part of a fraction;
* `ofDigits_ten_lt_eight_iff`, `denotesPart_numeral_iff`: where this is their decimal value;
* `Number.parse_fraction_literal`: the main result.
-/

namespace Scheme

/-! ### Numerals -/

/-- The number that digits denote in a radix.  The last digit counts ones. -/
def numeral (radix : Nat) (digits : List Char) : Nat :=
  Nat.ofDigits radix (digits.reverse.map digitValue)

theorem digitsValue_eq_numeral (radix : Nat) (digits : List Char) :
    digitsValue radix digits = numeral radix digits := by
  rw [digitsValue_eq_foldl, numeral, Nat.ofDigits_eq_foldr, List.foldr_map, List.foldr_reverse]
  congr 1
  funext n c
  rw [appendDigit, Nat.cast_id, Nat.add_comm]

/-- Octal and decimal digits denote the same number only where all but the last are zeros. -/
theorem ofDigits_ten_lt_eight_iff (digits : List Nat) : Nat.ofDigits 10 digits < 8 ↔
    (∀ d ∈ digits, d < 8) ∧ Nat.ofDigits 8 digits = Nat.ofDigits 10 digits := by
  cases digits with
  | nil => simp
  | cons d rest =>
    have hle : Nat.ofDigits 8 rest ≤ Nat.ofDigits 10 rest := Nat.ofDigits_monotone rest (by decide)
    rw [Nat.ofDigits_cons, Nat.ofDigits_cons]
    constructor
    · intro hlt
      have hrest : Nat.ofDigits 10 rest = 0 := by omega
      refine ⟨fun c hc => ?_, by omega⟩
      rcases List.mem_cons.1 hc with rfl | hc
      · omega
      · rw [Nat.digits_zero_of_eq_zero (by decide) hrest c hc]
        decide
    · rintro ⟨hall, heq⟩
      have hd := hall d List.mem_cons_self
      omega

/-! ### Parts of fractions -/

/-- The digits denote a number as a part of a fraction: octal digits after a zero in front, decimal
digits otherwise. -/
def DenotesPart (digits : List Char) (n : Nat) : Prop :=
  if digits.head? = some '0' then (∀ c ∈ digits, digitValue c < 8) ∧ n = numeral 8 digits
  else n = numeral 10 digits

theorem lt_eight_iff (c : Char) : c < '8' ↔ digitValue c < 8 := by
  have hlt : c < '8' ↔ c.toNat < 56 := Iff.rfl
  rw [hlt, digitValue]
  omega

theorem partValue?_eq_some_iff {digits : List Char} {n : Nat} :
    Magnitude.partValue? digits = some n ↔ DenotesPart digits n := by
  unfold Magnitude.partValue? DenotesPart
  simp only [digitsValue_eq_numeral, List.all_eq_true, decide_eq_true_eq, lt_eight_iff]
  split_ifs with hzero hoctal
  · rw [Option.some_inj, and_iff_right hoctal, eq_comm]
  · simp [hoctal]
  · rw [Option.some_inj, eq_comm]

/-- **Digits denote their decimal value in a fraction** unless a zero stands in front of a number of
eight or more. -/
theorem denotesPart_numeral_iff {digits : List Char} : DenotesPart digits (numeral 10 digits) ↔
    digits.head? ≠ some '0' ∨ numeral 10 digits < 8 := by
  unfold DenotesPart
  by_cases hzero : digits.head? = some '0'
  · have hiff := ofDigits_ten_lt_eight_iff (digits.reverse.map digitValue)
    simp only [List.mem_map, List.mem_reverse, forall_exists_index, and_imp,
      forall_apply_eq_imp_iff₂] at hiff
    rw [if_pos hzero, eq_comm]
    simp only [hzero, ne_eq, not_true_eq_false, false_or]
    exact hiff.symm
  · simp [hzero]

theorem denotesPart_one {n : Nat} : DenotesPart ['1'] n ↔ n = 1 := by
  have hnumeral : numeral 10 ['1'] = 1 := by decide
  simp [DenotesPart, hnumeral]

/-! ### Literals -/

namespace Number

/-- The sign in front of a literal, if there is one; `true` stands for the negative one. -/
def signText : Option Bool → List Char
  | none => []
  | some false => ['+']
  | some true => ['-']

/-- A literal with a sign in front, or without one. -/
def literal (sign : Option Bool) (body : List Char) : String :=
  String.ofList (signText sign ++ body)

/-- The number with the sign. -/
def signed (sign : Option Bool) (x : Rat) : Rat := if sign = some true then -x else x

theorem signed_injective (sign : Option Bool) : Function.Injective (signed sign) := by
  intro x y hxy
  unfold signed at hxy
  split_ifs at hxy
  · exact neg_injective hxy
  · exact hxy

/-- A literal that starts and ends with digits is read by its shape. -/
theorem parse_literal (sign : Option Bool) {body digits : List Char} {m : Magnitude}
    (hfirst : DigitFirst body) (hlast : body.getLast? = digits.getLast?)
    (hdigits : isDigits digits = true) (hm : Magnitude.parse body = some m)
    (hexact : m.isDecimal = false) :
    parse (literal sign body) = m.exactValue?.map fun x => ofRat (signed sign x) := by
  have hreal : RealNumber.parse none (signText sign ++ body) =
      m.exactValue?.map fun x => .exact (signed sign x) := by
    have hnone := RealNumber.parse_of_digitFirst hfirst hm
    have hsome (negative : Bool) := RealNumber.parse_sign_cons negative hfirst hm
    simp only [Magnitude.real?, hexact, Bool.not_false, if_true] at hnone hsome
    rcases sign with _ | _ | _
    · exact hnone
    · exact hsome false
    · exact hsome true
  obtain ⟨c, hc, hdigit⟩ := exists_getLast?_isDigits hdigits
  have hlast' : (signText sign ++ body).getLast? = some c := by
    rw [List.getLast?_append, hlast, hc]
    rfl
  have hi : c ≠ 'i' := by
    rintro rfl
    exact absurd hdigit (by decide)
  have hhead : (signText sign ++ body).head? ≠ some '#' := by
    refine StartsNumber.ne ?_ rfl rfl
    obtain ⟨d, hd, hd'⟩ := hfirst
    rcases sign with _ | _ | _
    · exact ⟨d, hd, Or.inl hd'⟩
    · exact ⟨'+', rfl, Or.inr rfl⟩
    · exact ⟨'-', rfl, Or.inr rfl⟩
  rw [parse, literal, String.toList_ofList, parseChars_of_head hhead, parseMarked, hreal]
  cases m.exactValue? with
  | none => simp [parseRectangular, hlast', hi]
  | some x => rfl

/-- **Digits denote their decimal value.** -/
theorem parse_literal_digits (sign : Option Bool) {digits : List Char}
    (h : isDigits digits = true) :
    parse (literal sign digits) = some (ofRat (signed sign (numeral 10 digits))) := by
  have hfirst := digitFirst_append h []
  rw [List.append_nil] at hfirst
  rw [parse_literal sign hfirst rfl h (Magnitude.parse_digits h) rfl, Magnitude.exactValue?_digits,
    digitsValue_eq_numeral]
  rfl

theorem exactValue?_eq_some_iff {a b : List Char} {x : Rat} :
    Magnitude.exactValue? (.fraction a b) = some x ↔
      ∃ n d, DenotesPart a n ∧ DenotesPart b d ∧ d ≠ 0 ∧ x = n / d := by
  simp only [Magnitude.exactValue?, Option.bind_eq_bind, Option.bind_eq_some_iff,
    partValue?_eq_some_iff]
  constructor
  · rintro ⟨n, hn, d, hd, hx⟩
    split_ifs at hx with hzero
    refine ⟨n, d, hn, hd, hzero, ?_⟩
    rw [← Option.some.inj hx, Rat.mkRat_eq_div, Int.cast_natCast]
  · rintro ⟨n, d, hn, hd, hzero, rfl⟩
    refine ⟨n, hn, d, hd, ?_⟩
    rw [if_neg hzero, Rat.mkRat_eq_div, Int.cast_natCast]

/-- **A fraction denotes the quotient of what its parts denote**, if they denote numbers and the
second is not zero. -/
theorem parse_literal_fraction (sign : Option Bool) {a b : List Char} (ha : isDigits a = true)
    (hb : isDigits b = true) (m : Number) : parse (literal sign (a ++ '/' :: b)) = some m ↔
      ∃ n d, DenotesPart a n ∧ DenotesPart b d ∧ d ≠ 0 ∧ m = ofRat (signed sign (n / d)) := by
  have hlast : (a ++ '/' :: b).getLast? = b.getLast? := by
    obtain ⟨c, hc, -⟩ := exists_getLast?_isDigits hb
    rw [List.getLast?_append, List.getLast?_cons, hc]
    rfl
  rw [parse_literal sign (digitFirst_append ha _) hlast hb (Magnitude.parse_fraction ha hb) rfl,
    Option.map_eq_some_iff]
  simp only [exactValue?_eq_some_iff]
  constructor
  · rintro ⟨x, ⟨n, d, hn, hd, hzero, rfl⟩, rfl⟩
    exact ⟨n, d, hn, hd, hzero, rfl⟩
  · rintro ⟨n, d, hn, hd, hzero, rfl⟩
    exact ⟨_, ⟨n, d, hn, hd, hzero, rfl⟩, rfl⟩

theorem ofRat_signed_injective (sign : Option Bool) :
    Function.Injective fun x => ofRat (signed sign x) := by
  intro x y hxy
  simp only [ofRat, exact.injEq, Cartesian.mk.injEq, and_true] at hxy
  exact signed_injective sign hxy

/-- A fraction with the denominator one agrees with the integer where its digits are read as
decimal. -/
theorem parse_literal_one_iff (sign : Option Bool) {a : List Char} (ha : isDigits a = true) :
    parse (literal sign (a ++ ['/', '1'])) = parse (literal sign a) ↔
    DenotesPart a (numeral 10 a) := by
  rw [parse_literal_digits sign ha, parse_literal_fraction sign ha (b := ['1']) (by decide)]
  constructor
  · rintro ⟨n, d, hn, hd, -, heq⟩
    obtain rfl := denotesPart_one.1 hd
    have hvalue := ofRat_signed_injective sign heq
    rw [Nat.cast_one, div_one, Nat.cast_inj] at hvalue
    rwa [hvalue]
  · intro h
    refine ⟨_, 1, h, denotesPart_one.2 rfl, one_ne_zero, ?_⟩
    rw [Nat.cast_one, div_one]

/-- **What a fraction denotes.**  For an optional sign and digits `a` and `b`, the literal `a/b`
denotes the quotient of what its parts denote, where a zero in front marks octal digits.  So it
denotes the quotient of the decimal values if each part is below eight or has no zero in front and
`b` is not zero.  The literal `a` always denotes the decimal value, and `a/1` denotes the same
number exactly if `a` is such a part. -/
theorem parse_fraction_literal (sign : Option Bool) {a b : List Char} (ha : isDigits a = true)
    (hb : isDigits b = true) :
    (∀ m, parse (literal sign (a ++ '/' :: b)) = some m ↔
      ∃ n d, DenotesPart a n ∧ DenotesPart b d ∧ d ≠ 0 ∧ m = ofRat (signed sign (n / d))) ∧
    ((a.head? ≠ some '0' ∨ numeral 10 a < 8) → (b.head? ≠ some '0' ∨ numeral 10 b < 8) →
      numeral 10 b ≠ 0 →
      parse (literal sign (a ++ '/' :: b)) =
        some (ofRat (signed sign (numeral 10 a / numeral 10 b)))) ∧
    parse (literal sign a) = some (ofRat (signed sign (numeral 10 a))) ∧
    (parse (literal sign (a ++ ['/', '1'])) = parse (literal sign a) ↔
      (a.head? ≠ some '0' ∨ numeral 10 a < 8)) := by
  refine ⟨parse_literal_fraction sign ha hb, ?_, parse_literal_digits sign ha, ?_⟩
  · intro hplain hplain' hzero
    exact (parse_literal_fraction sign ha hb _).2
      ⟨_, _, denotesPart_numeral_iff.2 hplain, denotesPart_numeral_iff.2 hplain', hzero, rfl⟩
  · rw [parse_literal_one_iff sign ha, denotesPart_numeral_iff]

/-- The literal `-017/10` is the fraction of minus fifteen and ten. -/
theorem parse_fraction_literal_octal :
    isDigits ['0', '1', '7'] = true ∧ isDigits ['1', '0'] = true ∧
      parse (literal (some true) (['0', '1', '7'] ++ '/' :: ['1', '0'])) =
        some (ofRat (-(3 / 2))) := by
  refine ⟨by decide, by decide, ?_⟩
  refine ((parse_fraction_literal (some true) (by decide) (by decide)).1 _).2
    ⟨15, 10, ?_, ?_, by decide, ?_⟩
  · exact partValue?_eq_some_iff.1 (by decide)
  · exact partValue?_eq_some_iff.1 (by decide)
  · norm_num [signed]

/-- The literal `010/2` denotes four, not the quotient five of the decimal values, and `08/1`
denotes no number. -/
theorem parse_fraction_not_decimal :
    parse "010/2" = some (ofInt 4) ∧ parse "08/1" = none ∧
      parse "010/2" ≠ some (ofRat (numeral 10 ['0', '1', '0'] / numeral 10 ['2'])) := by
  refine ⟨by decide, by decide, ?_⟩
  have hten : numeral 10 ['0', '1', '0'] = 10 := by decide
  have htwo : numeral 10 ['2'] = 2 := by decide
  have hfive : ((10 : Nat) : Rat) / (2 : Nat) = 5 := by norm_num
  rw [hten, htwo, hfive]
  decide

end Number

end Scheme
