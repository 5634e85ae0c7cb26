import Mathlib
import Scheme.Datum.Name
import Scheme.Number.Literal
import Scheme.Number.Printer
import Scheme.Proofs.Nearest

/-!
# The text of a number reads back

The text of a number is a literal of the same exactness and value.  A part that is a NaN has a text
as well, which reads as a NaN, and a NaN agrees with nothing; a zero part that is left out is read
as zero, so that a negative zero becomes zero, which it agrees with.

* `Decimal.parse_text`: the text of a decimal reads as a number of the same value;
* `Binary64.parse_text`, `parse_rationalText`: real numbers;
* `RealText`: the form of the texts of real numbers, from which the place of the sign between two
  parts is found;
* `Magnitude.eq_of_parse`: the form of unsigned literals;
* `Number.parseChars_chars`: all numbers.
-/

namespace Scheme

/-! ### Digits -/

theorem digitsValue_append (radix : Nat) (a b : List Char) :
    digitsValue radix (a ++ b) = digitsValue radix a * radix ^ b.length + digitsValue radix b := by
  simp only [digitsValue_eq_foldl, List.foldl_append]
  exact foldl_appendDigit radix _ b

theorem digitsValue_cons_zero (radix : Nat) (digits : List Char) :
    digitsValue radix ('0' :: digits) = digitsValue radix digits := by
  simp [digitsValue_eq_foldl, appendDigit, digitValue]

theorem digitsValue_replicate_zero (radix n : Nat) :
    digitsValue radix (List.replicate n '0') = 0 := by
  induction n with
  | zero => rfl
  | succ n ih => rw [List.replicate_succ, digitsValue_cons_zero, ih]

theorem digitsValue_toDigits (n : Nat) : digitsValue 10 (Nat.toDigits 10 n) = n := by
  rw [digitsValue_eq_foldl]
  exact Nat.ofDigitChars_ten_toDigits

theorem isDigit_toDigits (n : Nat) : ∀ c ∈ Nat.toDigits 10 n, c.isDigit = true :=
  fun _ hc => Nat.isDigit_of_mem_toDigits (by decide) (by decide) hc

theorem isDigit_paddedDigits (k n : Nat) {rest : List Char} (h : n < tenPow (twoPow k))
    (hrest : ∀ c ∈ rest, c.isDigit = true) : ∀ c ∈ paddedDigits k n rest, c.isDigit = true := by
  induction k generalizing n rest with
  | zero =>
    intro c hc
    obtain rfl | hc := List.mem_cons.1 hc
    · rw [Nat.isDigit_digitChar]
      exact decide_eq_true h
    · exact hrest c hc
  | succ k ih =>
    rw [tenPow_twoPow_succ] at h
    exact ih _ (Nat.div_lt_of_lt_mul h) (ih _ (Nat.mod_lt n (tenPow_pos _)) hrest)

/-- The digits of a number before other digits: all of them are digits, and only zero starts with
`0`. -/
theorem leadingDigits_spec (k n : Nat) {rest : List Char} (h : n < tenPow (twoPow k))
    (hrest : ∀ c ∈ rest, c.isDigit = true) :
    (∀ c ∈ leadingDigits k n rest, c.isDigit = true) ∧ leadingDigits k n rest ≠ [] ∧
      (0 < n → (leadingDigits k n rest).head? ≠ some '0') := by
  induction k generalizing n rest with
  | zero =>
    refine ⟨isDigit_paddedDigits 0 n h hrest, List.cons_ne_nil _ _, fun hn => ?_⟩
    rw [leadingDigits, List.head?_cons, Ne, Option.some_inj, Nat.digitChar_eq_zero]
    omega
  | succ k ih =>
    unfold leadingDigits
    simp only
    split_ifs with hlt
    · exact ih n hlt hrest
    · rw [tenPow_twoPow_succ] at h
      have hpos : 0 < n / tenPow (twoPow k) := Nat.div_pos (not_lt.1 hlt) (tenPow_pos _)
      obtain ⟨hall, hne, hhead⟩ := ih _ (Nat.div_lt_of_lt_mul h)
        (isDigit_paddedDigits k _ (Nat.mod_lt n (tenPow_pos _)) hrest)
      exact ⟨hall, hne, fun _ => hhead hpos⟩

theorem isDigit_decimalDigits (n : Nat) : ∀ c ∈ decimalDigits n, c.isDigit = true :=
  (leadingDigits_spec _ n (lt_tenPow_log2 n) (by simp)).1

theorem decimalDigits_ne_nil (n : Nat) : decimalDigits n ≠ [] :=
  (leadingDigits_spec _ n (lt_tenPow_log2 n) (by simp)).2.1

theorem head?_decimalDigits {n : Nat} (h : 0 < n) : (decimalDigits n).head? ≠ some '0' :=
  (leadingDigits_spec _ n (lt_tenPow_log2 n) (by simp)).2.2 h

theorem isDigits_eq_true_iff {digits : List Char} :
    isDigits digits = true ↔ digits ≠ [] ∧ ∀ c ∈ digits, c.isDigit = true := by
  simp [isDigits]

/-! ### Unsigned literals -/

/-- No digit comes next. -/
def DigitsEnd (cs : List Char) : Prop := ∀ c ∈ cs.head?, c.isDigit = false

theorem takeWhile_digits {digits rest : List Char} (h : ∀ c ∈ digits, c.isDigit = true)
    (hrest : DigitsEnd rest) : (digits ++ rest).takeWhile Char.isDigit = digits := by
  rw [List.takeWhile_append_of_pos h]
  cases rest with
  | nil => simp
  | cons c rest => simp [hrest c rfl]

theorem dropWhile_digits {digits rest : List Char} (h : ∀ c ∈ digits, c.isDigit = true)
    (hrest : DigitsEnd rest) : (digits ++ rest).dropWhile Char.isDigit = rest := by
  rw [List.dropWhile_append_of_pos h]
  cases rest with
  | nil => rfl
  | cons c rest => simp [hrest c rfl]

namespace Magnitude

theorem parse_fraction {numerator denominator : List Char} (hn : isDigits numerator = true)
    (hd : isDigits denominator = true) :
    parse (numerator ++ '/' :: denominator) = some (.fraction numerator denominator) := by
  have hall := (isDigits_eq_true_iff.1 hn).2
  have hend : DigitsEnd ('/' :: denominator) := by simp [DigitsEnd]
  simp [parse, takeWhile_digits hall hend, dropWhile_digits hall hend, hn, hd]

theorem parse_point {whole decimals tail : List Char} (hw : isDigits whole = true)
    (hd : ∀ c ∈ decimals, c.isDigit = true) (htail : DigitsEnd tail) :
    parse (whole ++ '.' :: (decimals ++ tail)) =
      (parseExponent tail).map (.decimal whole true decimals) := by
  obtain ⟨hne, hall⟩ := isDigits_eq_true_iff.1 hw
  have hend : DigitsEnd ('.' :: (decimals ++ tail)) := by simp [DigitsEnd]
  simp [parse, takeWhile_digits hall hend, dropWhile_digits hall hend, takeWhile_digits hd htail,
    dropWhile_digits hd htail, hne]

theorem parse_digits {whole : List Char} (hw : isDigits whole = true) :
    parse whole = some (.decimal whole false [] none) := by
  obtain ⟨hne, hall⟩ := isDigits_eq_true_iff.1 hw
  have hend : DigitsEnd [] := by simp [DigitsEnd]
  have ht := takeWhile_digits hall hend
  have hd := dropWhile_digits hall hend
  rw [List.append_nil] at ht hd
  simp [parse, ht, hd, hne, parseExponent]

theorem parse_exponent {whole rest : List Char} (hw : isDigits whole = true) :
    parse (whole ++ 'e' :: rest) = (parseExponent ('e' :: rest)).map (.decimal whole false []) := by
  obtain ⟨hne, hall⟩ := isDigits_eq_true_iff.1 hw
  have hend : DigitsEnd ('e' :: rest) := by simp [DigitsEnd]
  simp [parse, takeWhile_digits hall hend, dropWhile_digits hall hend, hne]

/-! ### Exponents -/

/-- An exponent below the bound is read in full. -/
theorem boundedExponent_eq {digits : List Char} (h : digitsValue 10 digits < exponentBound) :
    boundedExponent digits = digitsValue 10 digits := by
  have hfold (digits : List Char) (e : Nat)
      (h : digits.foldl (appendDigit 10) e < exponentBound) :
      digits.foldl (fun e c => if e < exponentBound then appendDigit 10 e c else e) e =
        digits.foldl (appendDigit 10) e := by
    induction digits generalizing e with
    | nil => rfl
    | cons c digits ih =>
      have hle : e ≤ (c :: digits).foldl (appendDigit 10) e := by
        rw [foldl_appendDigit]
        exact le_add_right (Nat.le_mul_of_pos_right e (Nat.pow_pos (by decide)))
      rw [List.foldl_cons, if_pos (lt_of_le_of_lt hle h), ih _ h, List.foldl_cons]
  rw [digitsValue_eq_foldl] at h ⊢
  exact hfold digits 0 h

/-- The digits of an exponent denote its size. -/
theorem exponentText_eq (e : Int) : ∃ digits, isDigits digits = true ∧
    digitsValue 10 digits = e.natAbs ∧
      Decimal.exponentText e = (if e < 0 then '-' else '+') :: digits := by
  have hall := isDigit_toDigits e.natAbs
  by_cases h : (Nat.toDigits 10 e.natAbs).length < 2
  · refine ⟨'0' :: Nat.toDigits 10 e.natAbs, isDigits_eq_true_iff.2 ⟨by simp, ?_⟩, ?_, ?_⟩
    · intro c hc
      obtain rfl | hc := List.mem_cons.1 hc
      · rfl
      · exact hall c hc
    · rw [digitsValue_cons_zero, digitsValue_toDigits]
    · rw [Decimal.exponentText, if_pos h]
  · refine ⟨Nat.toDigits 10 e.natAbs, isDigits_eq_true_iff.2 ⟨Nat.toDigits_ne_nil, hall⟩, ?_, ?_⟩
    · rw [digitsValue_toDigits]
    · rw [Decimal.exponentText, if_neg h]

/-- A written exponent is read back, if it is below the bound. -/
theorem parseExponent_exponentText {e : Int} (h : e.natAbs < exponentBound) :
    ∃ exponent, parseExponent ('e' :: Decimal.exponentText e) = some (some exponent) ∧
      inexactExponent (some exponent) = e := by
  obtain ⟨digits, hdigits, hvalue, htext⟩ := exponentText_eq e
  have hbounded : boundedExponent digits = e.natAbs := by
    rw [boundedExponent_eq (hvalue ▸ h), hvalue]
  refine ⟨(decide (e < 0), digits), ?_, ?_⟩
  · rw [htext]
    split_ifs with he <;> simp [parseExponent, splitSign, isExponentMark, hdigits, he]
  · rw [inexactExponent, hbounded]
    by_cases he : e < 0
    · rw [decide_eq_true he, if_pos rfl]
      omega
    · rw [decide_eq_false he, if_neg Bool.false_ne_true]
      omega

end Magnitude

/-! ### Decimals -/

namespace Decimal

/-- The digits of a decimal without the zeros at the end, and how many zeros there are. -/
theorem toDigits_eq_significant (d : Decimal) :
    ∃ zeros, Nat.toDigits 10 d.digits = d.significant ++ List.replicate zeros '0' := by
  have hsplit := @List.takeWhile_append_dropWhile _ (· == '0') (Nat.toDigits 10 d.digits).reverse
  refine ⟨((Nat.toDigits 10 d.digits).reverse.takeWhile (· == '0')).length, ?_⟩
  have hzeros : (Nat.toDigits 10 d.digits).reverse.takeWhile (· == '0') =
      List.replicate ((Nat.toDigits 10 d.digits).reverse.takeWhile (· == '0')).length '0' := by
    refine List.eq_replicate_iff.2 ⟨rfl, fun c hc => ?_⟩
    simpa using List.mem_takeWhile_imp hc
  have hrev := congrArg List.reverse hsplit
  rw [List.reverse_append, List.reverse_reverse, hzeros, List.reverse_replicate] at hrev
  exact hrev.symm

theorem isDigits_significant {d : Decimal} (h : 0 < d.digits) : isDigits d.significant = true := by
  obtain ⟨zeros, hz⟩ := d.toDigits_eq_significant
  refine isDigits_eq_true_iff.2 ⟨fun hnil => ?_, fun c hc => ?_⟩
  · have hvalue := digitsValue_toDigits d.digits
    rw [hz, hnil, List.nil_append, digitsValue_replicate_zero] at hvalue
    omega
  · refine isDigit_toDigits d.digits c ?_
    rw [hz]
    exact List.mem_append_left _ hc

/-- The value of a decimal by its significant digits and its order. -/
theorem value_eq (d : Decimal) :
    (d.digits : ℚ) * 10 ^ d.exponent =
      digitsValue 10 d.significant * 10 ^ (d.order + 1 - d.significant.length) := by
  obtain ⟨zeros, hz⟩ := d.toDigits_eq_significant
  have hvalue := digitsValue_toDigits d.digits
  rw [hz, digitsValue_append, digitsValue_replicate_zero, List.length_replicate,
    Nat.add_zero] at hvalue
  have horder : d.order + 1 - d.significant.length = zeros + d.exponent := by
    rw [order, hz, List.length_append, List.length_replicate]
    push_cast
    ring
  rw [horder, zpow_add₀ (by norm_num), ← mul_assoc, zpow_natCast, ← hvalue]
  push_cast
  ring

/-- A literal that has the given value as a decimal. -/
def ReadsAs (cs : List Char) (v : ℚ) : Prop :=
  ∃ whole point decimals exponent,
    Magnitude.parse cs = some (.decimal whole point decimals exponent) ∧
      (point || exponent.isSome) = true ∧
        (digitsValue 10 (whole ++ decimals) : ℚ) *
          10 ^ (Magnitude.inexactExponent exponent - decimals.length) = v

theorem readsAs_scientific {digits : List Char} {order : Int} (h : isDigits digits = true)
    (horder : order.natAbs < Magnitude.exponentBound) :
    ReadsAs (scientific digits order)
      (digitsValue 10 digits * 10 ^ (order + 1 - digits.length)) := by
  obtain ⟨exponent, hparse, hvalue⟩ := Magnitude.parseExponent_exponentText horder
  obtain ⟨hne, hall⟩ := isDigits_eq_true_iff.1 h
  match digits with
  | [] => exact absurd rfl hne
  | [d] =>
    refine ⟨[d], false, [], some exponent, ?_, rfl, ?_⟩
    · show Magnitude.parse ([d] ++ 'e' :: exponentText order) = _
      rw [Magnitude.parse_exponent h, hparse]
      rfl
    · rw [hvalue]
      simp
  | d :: c :: ds =>
    refine ⟨[d], true, c :: ds, some exponent, ?_, rfl, ?_⟩
    · show Magnitude.parse ([d] ++ '.' :: ((c :: ds) ++ 'e' :: exponentText order)) = _
      have hd : isDigits [d] = true := by simp [isDigits, hall d (by simp)]
      rw [Magnitude.parse_point hd (fun x hx => hall x (List.mem_cons_of_mem _ hx))
        (by simp [DigitsEnd]), hparse]
      rfl
    · rw [hvalue]
      simp only [List.cons_append, List.nil_append, List.length_cons]
      congr 2
      push_cast
      ring

/-- Digits in their place stand around a point. -/
theorem positional_eq {digits : List Char} (order : Int) (h : isDigits digits = true) :
    ∃ whole decimals, positional digits order = whole ++ '.' :: decimals ∧ isDigits whole = true ∧
      isDigits decimals = true ∧
        (digitsValue 10 (whole ++ decimals) : ℚ) * 10 ^ (-decimals.length : Int) =
          digitsValue 10 digits * 10 ^ (order + 1 - digits.length) := by
  obtain ⟨hne, hall⟩ := isDigits_eq_true_iff.1 h
  have hzeros (n : Nat) : ∀ c ∈ List.replicate n '0', c.isDigit = true := by
    intro c hc
    rw [List.eq_of_mem_replicate hc]
    rfl
  unfold positional
  split_ifs with hneg
  · -- all digits stand behind the point
    obtain ⟨k, hk⟩ : ∃ k : Nat, (-order - 1).toNat = k := ⟨_, rfl⟩
    rw [hk]
    refine ⟨['0'], _, rfl, rfl,
      isDigits_eq_true_iff.2 ⟨by simp [hne], List.forall_mem_append.2 ⟨hzeros k, hall⟩⟩, ?_⟩
    rw [List.singleton_append, digitsValue_cons_zero, digitsValue_append,
      digitsValue_replicate_zero,
      Nat.zero_mul, Nat.zero_add, List.length_append, List.length_replicate]
    congr 2
    omega
  · obtain ⟨k, hk⟩ : ∃ k : Nat, order.toNat = k := ⟨_, rfl⟩
    have horder : order = k := by omega
    simp only [hk]
    by_cases hle : digits.length ≤ k + 1
    · -- all digits stand before the point
      rw [List.take_of_length_le hle, List.drop_of_length_le hle]
      refine ⟨_, ['0'], rfl,
        isDigits_eq_true_iff.2 ⟨by simp [hne], List.forall_mem_append.2 ⟨hall, hzeros _⟩⟩, rfl, ?_⟩
      obtain ⟨j, hj⟩ : ∃ j, k + 1 - digits.length = j := ⟨_, rfl⟩
      have hexp : order + 1 - digits.length = j := by omega
      have hzero : digitsValue 10 ['0'] = 0 := rfl
      rw [hj, hexp, digitsValue_append, digitsValue_append, digitsValue_replicate_zero,
        List.length_replicate, hzero]
      simp only [List.length_singleton, Nat.cast_one, zpow_neg, zpow_one, zpow_natCast]
      push_cast
      ring
    · -- the point stands between the digits
      have hrep : k + 1 - digits.length = 0 := by omega
      have hdrop : digits.drop (k + 1) ≠ [] := by
        rw [Ne, List.drop_eq_nil_iff]
        omega
      rw [hrep, List.replicate_zero, List.append_nil, if_neg (by simpa using hdrop)]
      refine ⟨_, _, rfl,
        isDigits_eq_true_iff.2 ⟨by simp [hne], fun c hc => hall c (List.mem_of_mem_take hc)⟩,
        isDigits_eq_true_iff.2 ⟨hdrop, fun c hc => hall c (List.mem_of_mem_drop hc)⟩, ?_⟩
      rw [List.take_append_drop, List.length_drop]
      congr 2
      omega

theorem readsAs_positional {digits : List Char} (order : Int) (h : isDigits digits = true) :
    ReadsAs (positional digits order)
      (digitsValue 10 digits * 10 ^ (order + 1 - digits.length)) := by
  obtain ⟨whole, decimals, htext, hwhole, hdecimals, hvalue⟩ := positional_eq order h
  have hparse :=
    @Magnitude.parse_point whole decimals [] hwhole (isDigits_eq_true_iff.1 hdecimals).2
    (by simp [DigitsEnd])
  rw [List.append_nil] at hparse
  rw [htext]
  refine ⟨whole, true, decimals, none, hparse, rfl, ?_⟩
  rw [Magnitude.inexactExponent, zero_sub, hvalue]

/-- The text of a decimal reads as a number of the same value. -/
theorem readsAs_text {d : Decimal} (h : 0 < d.digits) (hlo : -330 ≤ d.order) (hhi : d.order < 310) :
    ReadsAs d.text (d.digits * 10 ^ d.exponent) := by
  have hbound : d.order.natAbs < Magnitude.exponentBound := by
    rw [Magnitude.exponentBound]
    omega
  rw [value_eq, text]
  split_ifs
  · exact readsAs_scientific (isDigits_significant h) hbound
  · exact readsAs_positional d.order (isDigits_significant h)

end Decimal

/-! ### The form of the texts of real numbers -/

/-- The characters of literals other than signs. -/
def isPlain (c : Char) : Bool := c.isDigit || c = '.' || c = '/' || c = 'e'

/-- A test that passes for all code points of a range passes for all characters of the range. -/
theorem of_char_range {p : Char → Bool} {first last c : Char}
    (h : (List.range (last.toNat + 1)).all
      (fun n => decide (first.toNat ≤ n) → p (Char.ofNat n)) = true)
    (hfirst : first ≤ c) (hlast : c ≤ last) : p c = true := by
  have hle : c.toNat ≤ last.toNat := hlast
  have hn := List.all_eq_true.1 h c.toNat (List.mem_range.2 (by omega))
  have hge : first.toNat ≤ c.toNat := hfirst
  simpa [hge, Char.ofNat_toNat] using hn

theorem isNameChar_of_isDigit {c : Char} (h : c.isDigit = true) : isNameChar c = true := by
  simp only [Char.isDigit, Bool.and_eq_true, decide_eq_true_eq] at h
  exact @of_char_range isNameChar '0' '9' c (by decide) h.1 h.2

theorem isNameChar_of_isPlain {c : Char} (h : isPlain c = true) : isNameChar c = true := by
  simp only [isPlain, Bool.or_eq_true, decide_eq_true_eq] at h
  obtain ((h | rfl) | rfl) | rfl := h
  · exact isNameChar_of_isDigit h
  · decide
  · decide
  · decide

theorem isSign_of_isDigit {c : Char} (h : c.isDigit = true) : isSign c = false := by
  simp only [isSign, Bool.or_eq_false_iff, decide_eq_false_iff_not]
  constructor <;> rintro rfl <;> exact absurd h (by decide)

theorem isExponentMark_of_isDigit {c : Char} (h : c.isDigit = true) : isExponentMark c = false := by
  simp only [isExponentMark, Bool.or_eq_false_iff, decide_eq_false_iff_not]
  constructor <;> rintro rfl <;> exact absurd h (by decide)

theorem isSign_of_isPlain {c : Char} (h : isPlain c = true) : isSign c = false := by
  simp only [isPlain, Bool.or_eq_true, decide_eq_true_eq] at h
  obtain ((h | rfl) | rfl) | rfl := h
  · exact isSign_of_isDigit h
  · rfl
  · rfl
  · rfl

theorem isPlain_of_isDigit {c : Char} (h : c.isDigit = true) : isPlain c = true := by
  simp [isPlain, h]

namespace Number

theorem splitAfter_eq_none {cs : List Char} (before : Char) (h : ∀ c ∈ cs, isSign c = false) :
    splitAfter before cs = none := by
  induction cs generalizing before with
  | nil => rfl
  | cons c cs ih =>
    simp [splitAfter, ih c fun x hx => h x (List.mem_cons_of_mem _ hx), h c (by simp)]

/-- Texts without a place to split have none where they meet, if the second has none after any
character. -/
theorem splitAfter_append_eq_none {a b : List Char} {before : Char}
    (ha : splitAfter before a = none) (hb : ∀ c, splitAfter c b = none) :
    splitAfter before (a ++ b) = none := by
  induction a generalizing before with
  | nil => exact hb before
  | cons c a ih =>
    rw [splitAfter] at ha
    split at ha
    · cases ha
    · rename_i hnone
      rw [List.cons_append, splitAfter, ih hnone]
      split_ifs at ha with hsign
      exact if_neg hsign

/-- The sign of an exponent is no place to split. -/
theorem splitAfter_exponent {cs digits : List Char} {s : Char} (before : Char)
    (h : ∀ c ∈ cs, isSign c = false) (hd : ∀ c ∈ digits, isSign c = false) :
    splitAfter before (cs ++ 'e' :: s :: digits) = none :=
  splitAfter_append_eq_none (splitAfter_eq_none before h) fun _ => by
    simp [splitAfter, splitAfter_eq_none s hd, isExponentMark, isSign]

/-- A text is split at a sign that no other sign follows. -/
theorem splitAfter_append {cs body : List Char} {s : Char} (before : Char) (hs : isSign s = true)
    (hbody : ∀ b, splitAfter b body = none)
    (hlast : ∀ c ∈ (before :: cs).getLast?, isExponentMark c = false) :
    splitAfter before (cs ++ s :: body) = some (cs, s :: body) := by
  induction cs generalizing before with
  | nil => simp [splitAfter, hbody, hs, hlast before rfl]
  | cons c cs ih =>
    simp [splitAfter, ih c fun x hx => hlast x (by simpa [List.getLast?_cons_cons] using hx)]

end Number

/-- A text after its sign, if it has one: part of a word, without further signs but that of an
exponent, and ended by a digit. -/
structure Unsigned (cs : List Char) : Prop where
  nameChar : ∀ c ∈ cs, isNameChar c = true
  unsplit : ∀ before, Number.splitAfter before cs = none
  last : ∃ c, cs.getLast? = some c ∧ c.isDigit = true

theorem Unsigned.ne_nil {cs : List Char} (h : Unsigned cs) : cs ≠ [] := by
  rintro rfl
  obtain ⟨c, hc, -⟩ := h.last
  cases hc

theorem exists_getLast?_isDigits {digits : List Char} (h : isDigits digits = true) :
    ∃ c, digits.getLast? = some c ∧ c.isDigit = true := by
  obtain ⟨hne, hall⟩ := isDigits_eq_true_iff.1 h
  exact ⟨digits.getLast hne, List.getLast?_eq_some_getLast hne, hall _ (List.getLast_mem hne)⟩

theorem unsigned_plain {cs digits : List Char} (h : ∀ c ∈ cs, isPlain c = true)
    (hd : isDigits digits = true) : Unsigned (cs ++ digits) := by
  have hall : ∀ c ∈ cs ++ digits, isPlain c = true := by
    intro c hc
    obtain hc | hc := List.mem_append.1 hc
    · exact h c hc
    · exact isPlain_of_isDigit ((isDigits_eq_true_iff.1 hd).2 c hc)
  refine ⟨fun c hc => isNameChar_of_isPlain (hall c hc), fun before => ?_, ?_⟩
  · exact Number.splitAfter_eq_none before fun c hc => isSign_of_isPlain (hall c hc)
  · obtain ⟨c, hc, hdigit⟩ := exists_getLast?_isDigits hd
    exact ⟨c, by rw [List.getLast?_append, hc]; rfl, hdigit⟩

/-- Digits around a point or a slash. -/
theorem unsigned_around {whole digits : List Char} {c : Char} (hwhole : isDigits whole = true)
    (hc : isPlain c = true) (hd : isDigits digits = true) : Unsigned (whole ++ c :: digits) := by
  have hall : ∀ x ∈ whole ++ [c], isPlain x = true :=
    List.forall_mem_append.2
      ⟨fun x hx => isPlain_of_isDigit ((isDigits_eq_true_iff.1 hwhole).2 x hx),
      List.forall_mem_singleton.2 hc⟩
  have hplain := unsigned_plain hall hd
  rwa [List.append_assoc] at hplain

theorem unsigned_exponent {cs digits : List Char} {s : Char} (h : ∀ c ∈ cs, isPlain c = true)
    (hs : isNameChar s = true) (hd : isDigits digits = true) :
    Unsigned (cs ++ 'e' :: s :: digits) := by
  have hall := (isDigits_eq_true_iff.1 hd).2
  refine ⟨fun c hc => ?_, fun before => ?_, ?_⟩
  · simp only [List.mem_append, List.mem_cons] at hc
    obtain hc | rfl | rfl | hc := hc
    · exact isNameChar_of_isPlain (h c hc)
    · decide
    · exact hs
    · exact isNameChar_of_isDigit (hall c hc)
  · exact Number.splitAfter_exponent before (fun c hc => isSign_of_isPlain (h c hc))
      fun c hc => isSign_of_isDigit (hall c hc)
  · obtain ⟨c, hc, hdigit⟩ := exists_getLast?_isDigits hd
    exact ⟨c, by simp [List.getLast?_append, List.getLast?_cons, hc], hdigit⟩

/-- The text starts with a digit. -/
def DigitFirst (cs : List Char) : Prop := ∃ c ∈ cs.head?, c.isDigit = true

theorem digitFirst_append {digits : List Char} (h : isDigits digits = true) (cs : List Char) :
    DigitFirst (digits ++ cs) := by
  obtain ⟨hne, hall⟩ := isDigits_eq_true_iff.1 h
  match digits with
  | [] => exact absurd rfl hne
  | c :: digits => exact ⟨c, rfl, hall c (by simp)⟩

namespace Decimal

theorem form_scientific {digits : List Char} (order : Int) (h : isDigits digits = true) :
    Unsigned (scientific digits order) ∧ DigitFirst (scientific digits order) := by
  obtain ⟨hne, hall⟩ := isDigits_eq_true_iff.1 h
  obtain ⟨exponent, hdigits, -, htext⟩ := Magnitude.exponentText_eq order
  have hs : isNameChar (if order < 0 then '-' else '+') = true := by split_ifs <;> decide
  match digits with
  | [] => exact absurd rfl hne
  | [d] =>
    have hd := hall d (by simp)
    refine ⟨?_, d, rfl, hd⟩
    show Unsigned ([d] ++ 'e' :: exponentText order)
    rw [htext]
    exact unsigned_exponent (by simp [isPlain_of_isDigit hd]) hs hdigits
  | d :: c :: ds =>
    refine ⟨?_, d, rfl, hall d (by simp)⟩
    show Unsigned ((d :: '.' :: c :: ds) ++ 'e' :: exponentText order)
    rw [htext]
    refine unsigned_exponent (fun x hx => ?_) hs hdigits
    simp only [List.mem_cons] at hx
    obtain rfl | rfl | hx := hx
    · exact isPlain_of_isDigit (hall _ (by simp))
    · rfl
    · exact isPlain_of_isDigit (hall x (by simp [hx]))

theorem form_positional {digits : List Char} (order : Int) (h : isDigits digits = true) :
    Unsigned (positional digits order) ∧ DigitFirst (positional digits order) := by
  obtain ⟨whole, decimals, htext, hwhole, hdecimals, -⟩ := positional_eq order h
  rw [htext]
  exact ⟨unsigned_around hwhole rfl hdecimals, digitFirst_append hwhole _⟩

theorem form_text {d : Decimal} (h : 0 < d.digits) : Unsigned d.text ∧ DigitFirst d.text := by
  unfold text
  split_ifs
  · exact form_scientific d.order (isDigits_significant h)
  · exact form_positional d.order (isDigits_significant h)

end Decimal

/-! ### Real numbers -/

/-- The value of a literal with the given sign and no exactness mark. -/
def Magnitude.real? (negative : Bool) (m : Magnitude) : Option RealNumber :=
  if !m.isDecimal then m.exactValue?.map fun x => .exact (if negative then -x else x)
  else (m.toFloat? negative).map .inexact

theorem RealNumber.parse_of_digitFirst {body : List Char} {m : Magnitude} (h : DigitFirst body)
    (hm : Magnitude.parse body = some m) : RealNumber.parse none body = m.real? false := by
  obtain ⟨c, hc, hdigit⟩ := h
  match body with
  | [] => cases hc
  | d :: body =>
    obtain rfl : d = c := Option.some.inj hc
    have hsign := isSign_of_isDigit hdigit
    simp only [isSign, Bool.or_eq_false_iff, decide_eq_false_iff_not] at hsign
    have hword : RealNumber.ofWord? (d :: body) = none := by simp [RealNumber.ofWord?, hsign]
    have hsplit : splitSign (d :: body) = (false, d :: body) := by
      unfold splitSign
      split <;> simp_all
    simp [RealNumber.parse, hword, hsplit, hm, Magnitude.real?]

theorem RealNumber.parse_sign_cons {body : List Char} {m : Magnitude} (negative : Bool)
    (h : DigitFirst body) (hm : Magnitude.parse body = some m) :
    RealNumber.parse none ((if negative then '-' else '+') :: body) = m.real? negative := by
  obtain ⟨c, hc, hdigit⟩ := h
  match body with
  | [] => cases hc
  | d :: body =>
    obtain rfl : d = c := Option.some.inj hc
    have hi : d ≠ 'i' := by rintro rfl; exact absurd hdigit (by decide)
    have hn : d ≠ 'n' := by rintro rfl; exact absurd hdigit (by decide)
    have hword (s : Char) : RealNumber.ofWord? (s :: d :: body) = none := by
      simp [RealNumber.ofWord?, hi, hn]
    cases negative <;> simp [RealNumber.parse, hword, splitSign, hm, Magnitude.real?]

/-- The text `cs` of the real number `x`, as it stands and with a sign in front. -/
structure RealText (cs : List Char) (x : RealNumber) : Prop where
  parse : RealNumber.parse none cs = some x
  parse_withSign : RealNumber.parse none (withSign cs) = some x
  form : ∃ s body, withSign cs = s :: body ∧ isSign s = true ∧ Unsigned body ∧
    (cs = body ∧ DigitFirst body ∨ cs = s :: body)

/-- The text starts with a digit or a sign. -/
def StartsNumber (cs : List Char) : Prop := ∃ c ∈ cs.head?, c.isDigit = true ∨ isSign c = true

theorem StartsNumber.ne {cs : List Char} (h : StartsNumber cs) {c : Char}
    (hdigit : c.isDigit = false) (hsign : isSign c = false) : cs.head? ≠ some c := by
  intro hc
  obtain ⟨d, hd, hor⟩ := h
  obtain rfl : c = d := Option.some.inj (hc.symm.trans hd)
  simp [hdigit, hsign] at hor

theorem StartsNumber.append {cs : List Char} (h : StartsNumber cs) (ds : List Char) :
    StartsNumber (cs ++ ds) := by
  obtain ⟨c, hc, hor⟩ := h
  match cs, hc with
  | c :: cs, rfl => exact ⟨c, rfl, hor⟩

namespace RealText

variable {cs : List Char} {x : RealNumber}

theorem nameChar (h : RealText cs x) : ∀ c ∈ cs, isNameChar c = true := by
  obtain ⟨s, body, -, hs, hu, ⟨rfl, -⟩ | rfl⟩ := h.form
  · exact hu.nameChar
  · intro c hc
    obtain rfl | hc := List.mem_cons.1 hc
    · simp only [isSign, Bool.or_eq_true, decide_eq_true_eq] at hs
      obtain rfl | rfl := hs <;> decide
    · exact hu.nameChar c hc

theorem last (h : RealText cs x) : ∃ c, cs.getLast? = some c ∧ c.isDigit = true := by
  obtain ⟨s, body, -, -, hu, ⟨rfl, -⟩ | rfl⟩ := h.form
  · exact hu.last
  · obtain ⟨c, hc, hdigit⟩ := hu.last
    exact ⟨c, by simp [List.getLast?_cons, hc], hdigit⟩

theorem startsNumber (h : RealText cs x) : StartsNumber cs := by
  obtain ⟨s, body, -, hs, hu, ⟨rfl, c, hc, hdigit⟩ | rfl⟩ := h.form
  · exact ⟨c, hc, Or.inl hdigit⟩
  · exact ⟨s, rfl, Or.inr hs⟩

end RealText

theorem realText_of_magnitude {body : List Char} {m : Magnitude} {x : RealNumber} (negative : Bool)
    (hu : Unsigned body) (hf : DigitFirst body) (hm : Magnitude.parse body = some m)
    (hx : m.real? negative = some x) : RealText (if negative then '-' :: body else body) x := by
  cases negative with
  | true =>
    have hparse := RealNumber.parse_sign_cons true hf hm
    exact ⟨hparse.trans hx, hparse.trans hx, '-', body, rfl, rfl, hu, Or.inr rfl⟩
  | false =>
    have hwith : withSign body = '+' :: body := by
      obtain ⟨c, hc, hdigit⟩ := hf
      match body with
      | [] => cases hc
      | d :: body =>
        obtain rfl : d = c := Option.some.inj hc
        have hsign := isSign_of_isDigit hdigit
        simp only [isSign, Bool.or_eq_false_iff, decide_eq_false_iff_not] at hsign
        unfold withSign
        split <;> simp_all
    refine ⟨(RealNumber.parse_of_digitFirst hf hm).trans hx, ?_, '+', body, hwith, rfl, hu,
      Or.inl ⟨rfl, hf⟩⟩
    simp only [Bool.false_eq_true, if_false]
    rw [hwith]
    exact (RealNumber.parse_sign_cons false hf hm).trans hx

namespace Magnitude

theorem exactValue?_digits (digits : List Char) :
    exactValue? (.decimal digits false [] none) = some (digitsValue 10 digits : ℚ) := by
  have hfits : fitsSigned 0 = true := by decide
  have hscale : ¬ scaleLimit < ((0 : Int) - ((0 : Nat) : Int)).natAbs := by decide
  simp only [exactValue?, List.append_nil, exponentValue, hfits, List.length_nil, Bool.not_true,
    Bool.false_eq_true, if_false, if_neg hscale]
  split_ifs with h0
  · rw [h0]
    rfl
  · simp [shifted, Binary64.tenPow_zero]

theorem partValue?_decimalDigits {n : Nat} (h : 0 < n) : partValue? (decimalDigits n) = some n := by
  rw [partValue?, if_neg (head?_decimalDigits h), digitsValue_decimalDigits]

theorem exactValue?_fraction {n d : Nat} (hn : 0 < n) (hd : 0 < d) :
    exactValue? (.fraction (decimalDigits n) (decimalDigits d)) = some (mkRat n d) := by
  simp [exactValue?, partValue?_decimalDigits hn, partValue?_decimalDigits hd, hd.ne']

end Magnitude

/-- A rational from its sign and the sizes of its parts. -/
theorem signed_mkRat_natAbs (x : Rat) :
    (if decide (x.num < 0) = true then -mkRat x.num.natAbs x.den else mkRat x.num.natAbs x.den) =
      x := by
  conv_rhs => rw [← Rat.mkRat_self x]
  by_cases h : x.num < 0
  · rw [decide_eq_true h, if_pos rfl, Rat.neg_mkRat]
    congr 1
    omega
  · rw [decide_eq_false h, if_neg Bool.false_ne_true]
    congr 1
    omega

/-- The text of a rational reads back. -/
theorem realText_rational (x : Rat) : RealText (rationalText x) (.exact x) := by
  have hdigits (n : Nat) : isDigits (decimalDigits n) = true :=
    isDigits_eq_true_iff.2 ⟨decimalDigits_ne_nil n, isDigit_decimalDigits n⟩
  have hx := signed_mkRat_natAbs x
  by_cases hden : x.den = 1
  · have htext : rationalText x = if decide (x.num < 0) = true then
        '-' :: decimalDigits x.num.natAbs else decimalDigits x.num.natAbs := by
      by_cases h : x.num < 0 <;> simp [rationalText, hden, h]
    have hint : mkRat x.num.natAbs 1 = (x.num.natAbs : ℚ) := by simp [Rat.mkRat_one]
    rw [hden, hint] at hx
    rw [htext]
    refine realText_of_magnitude _ (@unsigned_plain [] _ (by simp) (hdigits _)) ?_
      (Magnitude.parse_digits (hdigits _)) ?_
    · have hf := digitFirst_append (hdigits x.num.natAbs) []
      rwa [List.append_nil] at hf
    · simp only [Magnitude.real?, Magnitude.isDecimal, Magnitude.exactValue?_digits,
        digitsValue_decimalDigits, Option.isSome_none, Bool.or_self, Bool.not_false, if_true,
        Option.map_some, hx]
  · have htext : rationalText x = if decide (x.num < 0) = true then
        '-' :: (decimalDigits x.num.natAbs ++ '/' :: decimalDigits x.den)
        else decimalDigits x.num.natAbs ++ '/' :: decimalDigits x.den := by
      by_cases h : x.num < 0 <;> simp [rationalText, hden, h]
    have hnum : 0 < x.num.natAbs := by
      refine Int.natAbs_pos.2 fun h0 => hden ?_
      rw [Rat.zero_of_num_zero h0]
      rfl
    rw [htext]
    refine realText_of_magnitude _ (unsigned_around (hdigits _) rfl (hdigits _))
      (digitFirst_append (hdigits _) _)
      (Magnitude.parse_fraction (hdigits _) (hdigits _)) ?_
    simp only [Magnitude.real?, Magnitude.isDecimal, Magnitude.exactValue?_fraction hnum x.den_pos,
      Bool.not_false, if_true, Option.map_some, hx]

/-- A decimal literal of the value of a finite number reads as that number. -/
theorem realText_of_readsAs {cs : List Char} {negative : Bool} {d : Decimal} {x : Float}
    (hu : Unsigned cs) (hf : DigitFirst cs) (hr : Decimal.ReadsAs cs (d.digits * 10 ^ d.exponent))
    (hx : Binary64.ofBits negative d.bits = x) :
    RealText (if negative then '-' :: cs else cs) (.inexact x) := by
  obtain ⟨whole, point, decimals, exponent, hparse, hdecimal, hvalue⟩ := hr
  refine realText_of_magnitude negative hu hf hparse ?_
  have hbits := Binary64.decimalBits_congr hvalue
  simp only [Magnitude.real?, Magnitude.isDecimal, hdecimal, Bool.not_true, Bool.false_eq_true,
    if_false, Magnitude.toFloat?, Binary64.ofDecimal, hbits, Option.map_some]
  rw [← hx]
  rfl

theorem realText_float {x : Float} (h : x.isNaN = false) :
    RealText (Binary64.text x) (.inexact x) := by
  unfold Binary64.text
  split
  case h_1 hx => exact absurd ((Binary64.isNaN_eq_true_iff x).2 hx) (Bool.not_eq_true _ ▸ h)
  case h_2 negative hx =>
    have hinf := Binary64.infinity_eq hx
    have hu : Unsigned "inf.0".toList := by
      have hsign : ∀ c ∈ "inf.0".toList, isSign c = false := by simp [isSign]
      exact ⟨List.all_eq_true.1 (by decide), fun before => Number.splitAfter_eq_none before hsign,
        '0', rfl, rfl⟩
    cases negative with
    | true =>
      have hparse : RealNumber.parse none "-inf.0".toList = some (.inexact x) := by
        rw [← hinf]
        rfl
      exact ⟨hparse, hparse, '-', _, rfl, rfl, hu, Or.inr rfl⟩
    | false =>
      have hparse : RealNumber.parse none "+inf.0".toList = some (.inexact x) := by
        rw [← hinf]
        rfl
      exact ⟨hparse, hparse, '+', _, rfl, rfl, hu, Or.inr rfl⟩
  case h_3 negative m q hx =>
    have hbits := Binary64.ofBits_magnitudeBits hx
    have hc := (Binary64.toBits_of_finite hx).1
    simp only
    by_cases hm : m = 0
    · rw [if_pos hm]
      -- zero is written by its sign alone, so its exponent must be known
      have hq : q = Binary64.leastExponent := by
        obtain hq | hfilled := hc.filled
        · exact hq
        · exact absurd hfilled (by rw [hm]; decide)
      have hzero :
          Decimal.ReadsAs "0.0".toList (((⟨0, 0⟩ : Decimal).digits : ℚ) * 10 ^ (0 : Int)) :=
        ⟨['0'], true, ['0'], none, by decide, rfl,
          by norm_num [digitsValue, piecesValue, appendDigit, digitValue]⟩
      have hplain : Unsigned "0.0".toList := @unsigned_around ['0'] ['0'] '.' rfl rfl rfl
      refine realText_of_readsAs hplain ⟨'0', rfl, rfl⟩ hzero ?_
      rw [← hbits, hm, hq]
      rfl
    · rw [if_neg hm]
      have hpos : 0 < m := Nat.pos_of_ne_zero hm
      have hshort := Decimal.bits_shortest hpos hc
      have hbitspos : 0 < Binary64.magnitudeBits m q := by
        rw [Binary64.magnitudeBits]
        omega
      -- the exponent that is written stays within what is read
      obtain ⟨hlo, hhi⟩ := Decimal.order_bounds (hshort ▸ hbitspos) (hshort ▸ hc.finite)
      have hdigits := Decimal.digits_pos (hshort ▸ hbitspos)
      obtain ⟨hu, hf⟩ := Decimal.form_text hdigits
      exact realText_of_readsAs hu hf (Decimal.readsAs_text hdigits hlo hhi) (hshort ▸ hbits)

/-! ### The form of unsigned literals -/

/-- The characters of a literal in front of its exponent. -/
def isMantissa (c : Char) : Bool := c.isDigit || c = '.' || c = '/'

theorem isSign_of_isMantissa {c : Char} (h : isMantissa c = true) : isSign c = false := by
  simp only [isMantissa, Bool.or_eq_true, decide_eq_true_eq] at h
  obtain (h | rfl) | rfl := h
  · exact isSign_of_isDigit h
  · rfl
  · rfl

theorem isExponentMark_of_isMantissa {c : Char} (h : isMantissa c = true) :
    isExponentMark c = false := by
  simp only [isMantissa, Bool.or_eq_true, decide_eq_true_eq] at h
  obtain (h | rfl) | rfl := h
  · exact isExponentMark_of_isDigit h
  · rfl
  · rfl

/-- A text is its sign, if it has one, and what follows it. -/
theorem exists_sign_append (cs : List Char) :
    ∃ sign, cs = sign ++ (splitSign cs).2 ∧ (sign = [] ∨ ∃ s, sign = [s] ∧ isSign s = true) := by
  unfold splitSign
  split
  · exact ⟨['+'], rfl, Or.inr ⟨'+', rfl, rfl⟩⟩
  · exact ⟨['-'], rfl, Or.inr ⟨'-', rfl, rfl⟩⟩
  · exact ⟨[], rfl, Or.inl rfl⟩

namespace Magnitude

/-- An exponent that is not empty is a mark, a sign, if there is one, and digits. -/
theorem eq_of_parseExponent {cs : List Char} {e : Option (Bool × List Char)}
    (h : parseExponent cs = some e) : cs = [] ∨ ∃ c sign digits, cs = c :: (sign ++ digits) ∧
      isExponentMark c = true ∧ (sign = [] ∨ ∃ s, sign = [s] ∧ isSign s = true) ∧
        isDigits digits = true := by
  match cs with
  | [] => exact Or.inl rfl
  | c :: cs =>
    obtain ⟨sign, hcs, hsign⟩ := exists_sign_append cs
    simp only [parseExponent] at h
    split_ifs at h with hcond
    rw [Bool.and_eq_true] at hcond
    exact Or.inr ⟨c, sign, (splitSign cs).2, congrArg _ hcs, hcond.1, hsign, hcond.2⟩

/-- An unsigned literal is digits with a point or a bar between them, and an exponent. -/
theorem eq_of_parse {cs : List Char} {m : Magnitude} (h : parse cs = some m) :
    ∃ front tail e, cs = front ++ tail ∧ front ≠ [] ∧ (∀ c ∈ front, isMantissa c = true) ∧
      parseExponent tail = some e := by
  have hrun (cs : List Char) : ∀ c ∈ cs.takeWhile Char.isDigit, isMantissa c = true := by
    intro c hc
    have hdigit : c.isDigit = true := List.mem_takeWhile_imp hc
    simp [isMantissa, hdigit]
  have hsplit (cs : List Char) := (@List.takeWhile_append_dropWhile _ Char.isDigit cs).symm
  simp only [parse] at h
  split at h
  case h_1 denominator hdrop =>
    split_ifs at h with hcond
    rw [Bool.and_eq_true] at hcond
    refine ⟨cs.takeWhile Char.isDigit ++ '/' :: denominator, [], none, ?_, by simp, fun c hc => ?_,
      rfl⟩
    · rw [List.append_nil, ← hdrop, ← hsplit]
    · simp only [List.mem_append, List.mem_cons] at hc
      obtain hc | rfl | hc := hc
      · exact hrun cs c hc
      · rfl
      · have hdigit := (isDigits_eq_true_iff.1 hcond.2).2 c hc
        simp [isMantissa, hdigit]
  case h_2 rest hdrop =>
    split_ifs at h with hcond
    obtain ⟨e, he, -⟩ := Option.map_eq_some_iff.1 h
    refine ⟨cs.takeWhile Char.isDigit ++ '.' :: rest.takeWhile Char.isDigit,
      rest.dropWhile Char.isDigit, e,
      ?_, by simp, fun c hc => ?_, he⟩
    · rw [List.append_assoc, List.cons_append, ← hsplit, ← hdrop, ← hsplit]
    · simp only [List.mem_append, List.mem_cons] at hc
      obtain hc | rfl | hc := hc
      · exact hrun cs c hc
      · rfl
      · exact hrun rest c hc
  case h_3 =>
    split_ifs at h with hcond
    obtain ⟨e, he, -⟩ := Option.map_eq_some_iff.1 h
    exact ⟨cs.takeWhile Char.isDigit, cs.dropWhile Char.isDigit, e, hsplit cs, by simpa using hcond,
      hrun cs, he⟩

end Magnitude

/-! ### Texts that end in `i` -/

namespace Magnitude

theorem not_mem_of_parseExponent {cs : List Char} {e : Option (Bool × List Char)}
    (h : parseExponent cs = some e) : 'i' ∉ cs := by
  obtain rfl | ⟨c, sign, digits, rfl, hmark, hsign, hdigits⟩ := eq_of_parseExponent h
  · simp
  · simp only [List.mem_cons, List.mem_append, not_or]
    refine ⟨?_, ?_, fun hi => ?_⟩
    · rintro rfl
      cases hmark
    · obtain rfl | ⟨s, rfl, hs⟩ := hsign
      · simp
      · rw [List.mem_singleton]
        rintro rfl
        cases hs
    · exact absurd ((isDigits_eq_true_iff.1 hdigits).2 'i' hi) (by decide)

/-- An unsigned literal holds no `i`. -/
theorem not_mem_of_parse {cs : List Char} {m : Magnitude} (h : parse cs = some m) : 'i' ∉ cs := by
  obtain ⟨front, tail, e, rfl, -, hfront, htail⟩ := eq_of_parse h
  rw [List.mem_append, not_or]
  exact ⟨fun hi => absurd (hfront 'i' hi) (by decide), not_mem_of_parseExponent htail⟩

end Magnitude

/-- No real literal ends in `i`. -/
theorem RealNumber.parse_eq_none {mark : Option Exactness} {cs : List Char}
    (h : cs.getLast? = some 'i') : RealNumber.parse mark cs = none := by
  have hword : RealNumber.ofWord? cs = none := by
    unfold RealNumber.ofWord?
    split_ifs with h₁ h₂ h₃
    · rw [h₁] at h
      cases h
    · rw [h₂] at h
      cases h
    · obtain h₃ | h₃ := h₃ <;> rw [h₃] at h <;> cases h
    · rfl
  obtain ⟨⟨negative, body⟩, hsplit⟩ : ∃ p, splitSign cs = p := ⟨_, rfl⟩
  have hbody : 'i' ∈ body := by
    have hmem := List.mem_of_getLast? h
    unfold splitSign at hsplit
    split at hsplit <;> obtain ⟨rfl, rfl⟩ := Prod.mk.inj hsplit <;> simpa using hmem
  have hm : Magnitude.parse body = none := by
    cases hm : Magnitude.parse body with
    | none => rfl
    | some m => exact absurd hbody (Magnitude.not_mem_of_parse hm)
  simp [RealNumber.parse, hword, hsplit, hm]

namespace Number

/-- The parts of a number have no NaN. -/
def isNaNFree : Number → Bool
  | .exact _ => true
  | .inexact z => !z.re.isNaN && !z.im.isNaN

theorem parseChars_of_head {cs : List Char} (h : cs.head? ≠ some '#') :
    parseChars cs = parseMarked none cs := by
  unfold parseChars
  split
  · simp at h
  · rfl

theorem parseChars_real {cs : List Char} {x : RealNumber} (h : RealText cs x) :
    parseChars cs = some (ofReal x) := by
  rw [parseChars_of_head (h.startsNumber.ne rfl rfl), parseMarked, h.parse]

/-- Digits are an exact integer. -/
theorem parseChars_digits {digits : List Char} (h : isDigits digits = true) :
    parseChars digits = some (.ofInt (digitsValue 10 digits)) := by
  have hfirst : DigitFirst digits := by
    have hf := digitFirst_append h []
    rwa [List.append_nil] at hf
  have hhead : digits.head? ≠ some '#' := by
    obtain ⟨c, hc, hdigit⟩ := hfirst
    exact StartsNumber.ne ⟨c, hc, Or.inl hdigit⟩ rfl rfl
  rw [parseChars_of_head hhead, parseMarked, RealNumber.parse_of_digitFirst hfirst
    (Magnitude.parse_digits h)]
  simp [Magnitude.real?, Magnitude.isDecimal, Magnitude.exactValue?_digits, ofReal, ofInt]

theorem parseMarked_rectangular {cs a b : List Char} {x y : RealNumber}
    (hsplit : splitImaginary cs = some (a, b)) (ha : parseRealPart none a = some x)
    (hb : parseImagPart none b = some y) :
    parseMarked none (cs ++ ['i']) = some (rectangular x y) := by
  have hlast : (cs ++ ['i']).getLast? = some 'i' := by simp
  rw [parseMarked, RealNumber.parse_eq_none hlast]
  simp [parseRectangular, hsplit, ha, hb]

theorem parseImagPart_withSign {im : List Char} {y : RealNumber} (h : RealText im y) :
    parseImagPart none (withSign im) = some y := by
  obtain ⟨s, body, hwith, -, hu, -⟩ := h.form
  have hparse := h.parse_withSign
  rw [hwith] at hparse ⊢
  simp [parseImagPart, hu.ne_nil, hparse]

theorem parseChars_imaginary {im : List Char} {y : RealNumber} (h : RealText im y) :
    parseChars (withSign im ++ ['i']) = some (rectangular (.exact 0) y) := by
  have himag := parseImagPart_withSign h
  obtain ⟨s, body, hwith, hs, hu, -⟩ := h.form
  rw [hwith] at himag ⊢
  have hsplit : splitImaginary (s :: body) = some ([], s :: body) := by
    simp [splitImaginary, hu.unsplit, hs]
  rw [parseChars_of_head]
  · exact parseMarked_rectangular hsplit rfl himag
  · rw [List.cons_append, List.head?_cons, Ne, Option.some_inj]
    rintro rfl
    exact absurd hs (by decide)

theorem parseChars_complex {re im : List Char} {x y : RealNumber} (hx : RealText re x)
    (hy : RealText im y) : parseChars (re ++ withSign im ++ ['i']) = some (rectangular x y) := by
  have himag := parseImagPart_withSign hy
  obtain ⟨s, body, hwith, hs, hu, -⟩ := hy.form
  obtain ⟨d, hd, hdigit⟩ := hx.last
  rw [hwith] at himag ⊢
  match re with
  | [] => cases hd
  | c :: re =>
    have hsplit : splitImaginary ((c :: re) ++ s :: body) = some (c :: re, s :: body) := by
      have hafter := @splitAfter_append re body s c hs hu.unsplit (fun e he => by
        obtain rfl : d = e := Option.some.inj (hd.symm.trans he)
        exact isExponentMark_of_isDigit hdigit)
      simp [splitImaginary, hafter]
    rw [parseChars_of_head (((hx.startsNumber.append (s :: body)).append ['i']).ne rfl rfl)]
    exact parseMarked_rectangular hsplit hx.parse himag

/-- The text of a number reads back as a number of the same exactness and value. -/
theorem parseChars_chars {n : Number} (h : n.isNaNFree = true) :
    ∃ m, parseChars n.chars = some m ∧ m.isExact = n.isExact ∧ n.same m = true := by
  cases n with
  | exact z =>
    obtain ⟨x, y⟩ := z
    have hx := realText_rational x
    have hy := realText_rational y
    refine ⟨.exact ⟨x, y⟩, ?_, rfl, by simp [same]⟩
    simp only [chars, joinParts, decide_eq_true_eq]
    split_ifs with him hre
    · rw [parseChars_real hx, him]
      rfl
    · rw [parseChars_imaginary hy, hre]
      rfl
    · rw [parseChars_complex hx hy]
      rfl
  | inexact z =>
    obtain ⟨x, y⟩ := z
    simp only [isNaNFree, Bool.and_eq_true, Bool.not_eq_true'] at h
    have hx := realText_float h.1
    have hy := realText_float h.2
    simp only [chars, joinParts]
    split_ifs with him hre
    · exact ⟨_, parseChars_real hx,
        rfl, by simp [same, ofReal, ofFloat, Binary64.beq_self h.1, him]⟩
    · have hzero : Binary64.ofRat 0 = 0 := by decide
      exact ⟨_, parseChars_imaginary hy, rfl, by
        simp [same, rectangular, RealNumber.toFloat, Binary64.beq_self h.2, hzero, hre]⟩
    · exact ⟨_, parseChars_complex hx hy, rfl, by
        simp [same, rectangular, RealNumber.toFloat, Binary64.beq_self h.1, Binary64.beq_self h.2]⟩

/-- **The text of a number reads back**: a number without a NaN is parsed from its text, with the
same exactness and the same value. -/
theorem parse_text {n : Number} (h : n.isNaNFree = true) :
    ∃ m, parse n.text = some m ∧ m.isExact = n.isExact ∧ n.same m = true := by
  obtain ⟨m, hparse, hexact, hsame⟩ := parseChars_chars h
  refine ⟨m, ?_, hexact, hsame⟩
  rw [parse, text, String.toList_ofList, hparse]

/-- The number `-inf.0-2.5e-07i`, whose text has a sign in front, one between the parts and one in
the exponent. -/
theorem parse_text_signs :
    let n : Number := .inexact ⟨Binary64.infinity true, -2.5e-7⟩
    n.isNaNFree = true ∧ n.text = "-inf.0-2.5e-07i" ∧
      ∃ m, parse n.text = some m ∧ m.isExact = n.isExact ∧ n.same m = true :=
  ⟨by decide +kernel, by decide +kernel, parse_text (by decide +kernel)⟩

theorem nameChar_joinParts {re im : List Char} {x y : RealNumber} (hx : RealText re x)
    (hy : RealText im y) (reZero imZero : Bool) :
    (∀ c ∈ joinParts re im reZero imZero, isNameChar c = true) ∧
      StartsNumber (joinParts re im reZero imZero) := by
  have hwith : (∀ c ∈ withSign im, isNameChar c = true) ∧ StartsNumber (withSign im) := by
    obtain ⟨s, body, hwith, hs, hu, -⟩ := hy.form
    rw [hwith]
    refine ⟨fun c hc => ?_, s, rfl, Or.inr hs⟩
    obtain rfl | hc := List.mem_cons.1 hc
    · simp only [isSign, Bool.or_eq_true, decide_eq_true_eq] at hs
      obtain rfl | rfl := hs <;> decide
    · exact hu.nameChar c hc
  have hi : ∀ c ∈ ['i'], isNameChar c = true := List.all_eq_true.1 (by decide)
  unfold joinParts
  split_ifs
  · exact ⟨hx.nameChar, hx.startsNumber⟩
  · exact ⟨List.forall_mem_append.2 ⟨hwith.1, hi⟩, hwith.2.append _⟩
  · exact ⟨List.forall_mem_append.2 ⟨List.forall_mem_append.2 ⟨hx.nameChar, hwith.1⟩, hi⟩,
      (hx.startsNumber.append _).append _⟩

/-- The text of a number is a word that starts as numbers do. -/
theorem nameChar_chars {n : Number} (h : n.isNaNFree = true) :
    (∀ c ∈ n.chars, isNameChar c = true) ∧ StartsNumber n.chars := by
  cases n with
  | exact z => exact nameChar_joinParts (realText_rational z.re) (realText_rational z.im) _ _
  | inexact z =>
    simp only [isNaNFree, Bool.and_eq_true, Bool.not_eq_true'] at h
    exact nameChar_joinParts (realText_float h.1) (realText_float h.2) _ _

end Number

end Scheme
