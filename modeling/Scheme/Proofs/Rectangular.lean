import Mathlib
import Scheme.Proofs.NumberText

/-!
# Rectangular literals

A rectangular literal is a real part, an imaginary part that starts with a sign, and the letter `i`.
The real part may be missing and the imaginary part may be a bare sign.  Parts with exponents have
signs of their own, so the place between the parts is the last sign that is not the sign of an
exponent.

* `Unbroken`: a text in which no such sign is found;
* `DenotesReal`, `DenotesImag`: what stands for the parts;
* `IsRectangular.unique`: a literal has one pair of parts;
* `exactnessMarks`: what can stand in front of a literal;
* `Number.parse_rectangular`: the main result.
-/

namespace Scheme

/-! ### Texts without a place to split -/

namespace Number

/-- The sign of an exponent is no place to split. -/
theorem splitAfter_of_parseExponent {cs : List Char} {e : Option (Bool × List Char)} (before : Char)
    (h : Magnitude.parseExponent cs = some e) : splitAfter before cs = none := by
  obtain rfl | ⟨c, sign, digits, rfl, hmark, hsign, hdigits⟩ := Magnitude.eq_of_parseExponent h
  · rfl
  · have hnone (before : Char) : splitAfter before digits = none :=
      splitAfter_eq_none before fun d hd =>
        isSign_of_isDigit ((isDigits_eq_true_iff.1 hdigits).2 d hd)
    have hc : isSign c = false := by
      simp only [isExponentMark, Bool.or_eq_true, decide_eq_true_eq] at hmark
      obtain rfl | rfl := hmark <;> rfl
    obtain rfl | ⟨s, rfl, -⟩ := hsign
    · simp [splitAfter, hnone, hc]
    · simp [splitAfter, hnone, hmark, hc]

end Number

/-- A text after its sign, if it has one: it has no place to split, and no exponent starts at its
end. -/
structure Unbroken (cs : List Char) : Prop where
  ne_nil : cs ≠ []
  unsplit : ∀ before, Number.splitAfter before cs = none
  last : ∀ c ∈ cs.getLast?, isExponentMark c = false
  head : cs.head? ≠ some '#'

theorem unbroken_of_parse {cs : List Char} {m : Magnitude} (h : Magnitude.parse cs = some m) :
    Unbroken cs := by
  obtain ⟨front, tail, e, rfl, hne, hfront, htail⟩ := Magnitude.eq_of_parse h
  refine ⟨by simp [hne], fun before => ?_, fun c hc => ?_, fun hc => ?_⟩
  · exact Number.splitAfter_append_eq_none
      (Number.splitAfter_eq_none before fun c hc => isSign_of_isMantissa (hfront c hc))
      fun c => Number.splitAfter_of_parseExponent c htail
  · obtain rfl | ⟨d, sign, digits, rfl, -, -, hdigits⟩ := Magnitude.eq_of_parseExponent htail
    · rw [List.append_nil] at hc
      exact isExponentMark_of_isMantissa (hfront c (List.mem_of_getLast? hc))
    · obtain ⟨x, hx, hdigit⟩ := exists_getLast?_isDigits hdigits
      have hlast : (front ++ d :: (sign ++ digits)).getLast? = some x := by
        simp [List.getLast?_append, List.getLast?_cons, hx]
      obtain rfl : x = c := Option.some.inj (hlast.symm.trans hc)
      exact isExponentMark_of_isDigit hdigit
  · obtain ⟨d, front, rfl⟩ := List.exists_cons_of_ne_nil hne
    obtain rfl : d = '#' := Option.some.inj hc
    exact absurd (hfront '#' List.mem_cons_self) (by decide)

/-! ### The form of real literals -/

namespace RealNumber

theorem unbroken_word {cs : List Char} {x : Float} (h : ofWord? cs = some x) :
    ∃ s body, cs = s :: body ∧ isSign s = true ∧ Unbroken body := by
  have hword (c d e : Char) (hsigns : [c, d, e].all (fun c => !isSign c) = true) (hhash : c ≠ '#') :
      Unbroken [c, d, e, '.', '0'] := by
    have hall : ∀ x ∈ [c, d, e, '.', '0'], isSign x = false := by
      simpa [isSign] using hsigns
    exact ⟨by simp, fun before => Number.splitAfter_eq_none before hall, by rintro x ⟨⟩; rfl,
      by simpa using hhash⟩
  have hinf := hword 'i' 'n' 'f' (by decide) (by decide)
  have hnan := hword 'n' 'a' 'n' (by decide) (by decide)
  unfold ofWord? at h
  split_ifs at h with h₁ h₂ h₃
  · exact ⟨'+', _, h₁, rfl, hinf⟩
  · exact ⟨'-', _, h₂, rfl, hinf⟩
  · obtain h₃ | h₃ := h₃
    · exact ⟨'+', _, h₃, rfl, hnan⟩
    · exact ⟨'-', _, h₃, rfl, hnan⟩

/-- A real literal is a sign, if there is one, and a text without a place to split. -/
theorem exists_unbroken {mark : Option Exactness} {cs : List Char} {x : RealNumber}
    (h : parse mark cs = some x) : ∃ sign body, cs = sign ++ body ∧
      (sign = [] ∨ ∃ s, sign = [s] ∧ isSign s = true) ∧ Unbroken body := by
  unfold parse at h
  split at h
  · rename_i w hw
    obtain ⟨s, body, rfl, hs, hbody⟩ := unbroken_word hw
    exact ⟨[s], body, rfl, Or.inr ⟨s, rfl, hs⟩, hbody⟩
  · obtain ⟨sign, hcs, hsign⟩ := exists_sign_append cs
    simp only at h
    split at h
    · cases h
    · rename_i m hm
      exact ⟨sign, _, hcs, hsign, unbroken_of_parse hm⟩

/-- After its sign a real literal has no place to split. -/
theorem unbroken_of_parse_cons {mark : Option Exactness} {s : Char} {body : List Char}
    {x : RealNumber} (hs : isSign s = true) (h : parse mark (s :: body) = some x) :
    Unbroken body := by
  obtain ⟨sign, body', hcs, rfl | ⟨s', rfl, -⟩, hbody⟩ := exists_unbroken h
  · -- a text that starts with a sign has a place to split
    have hsplit := hbody.unsplit ' '
    rw [List.nil_append] at hcs
    rw [← hcs, Number.splitAfter] at hsplit
    split at hsplit
    · cases hsplit
    · simp [hs, isExponentMark] at hsplit
  · rw [List.singleton_append, List.cons.injEq] at hcs
    rwa [hcs.2]

/-- The rational under an exactness mark. -/
def marked (mark : Option Exactness) (x : Rat) : RealNumber :=
  if mark = some .inexact then .inexact (Binary64.ofRat x) else .exact x

end RealNumber

namespace Number

/-! ### The place between two parts -/

/-- A text is split at a sign behind which there is no place to split. -/
theorem splitImaginary_append {a body : List Char} {s : Char} (hs : isSign s = true)
    (hbody : ∀ before, splitAfter before body = none)
    (hlast : ∀ c ∈ a.getLast?, isExponentMark c = false) :
    splitImaginary (a ++ s :: body) = some (a, s :: body) := by
  cases a with
  | nil => simp [splitImaginary, hbody, hs]
  | cons c a => simp [splitImaginary, splitAfter_append c hs hbody hlast]

theorem eq_of_splitAfter {before : Char} {cs a b : List Char}
    (h : splitAfter before cs = some (a, b)) :
    cs = a ++ b ∧ ∃ s body, b = s :: body ∧ isSign s = true := by
  induction cs generalizing before a with
  | nil => cases h
  | cons c cs ih =>
    rw [splitAfter] at h
    split at h
    · rename_i a' b' hafter
      cases h
      obtain ⟨hcs, hb⟩ := ih hafter
      exact ⟨congrArg _ hcs, hb⟩
    · split_ifs at h with hcond
      cases h
      rw [Bool.and_eq_true] at hcond
      exact ⟨rfl, c, cs, rfl, hcond.1⟩

/-- The parts of a text that is split make up the text, and the second starts with a sign. -/
theorem eq_of_splitImaginary {cs a b : List Char} (h : splitImaginary cs = some (a, b)) :
    cs = a ++ b ∧ ∃ s body, b = s :: body ∧ isSign s = true := by
  unfold splitImaginary at h
  split at h
  · cases h
  · rename_i c cs
    split at h
    · rename_i a' b' hafter
      cases h
      obtain ⟨hcs, hb⟩ := eq_of_splitAfter hafter
      exact ⟨congrArg _ hcs, hb⟩
    · split_ifs at h with hsign
      cases h
      exact ⟨rfl, c, cs, rfl, hsign⟩

/-! ### The parts of a rectangular literal -/

/-- What stands for the real part under an exactness mark: a real literal, or nothing for an exact
zero. -/
inductive DenotesReal (mark : Option Exactness) : List Char → RealNumber → Prop
  | missing : DenotesReal mark [] (.exact 0)
  | literal {a x} : RealNumber.parse mark a = some x → DenotesReal mark a x

/-- What stands for the imaginary part under an exactness mark: a real literal with a sign, or a
bare sign for one or minus one. -/
inductive DenotesImag (mark : Option Exactness) : List Char → RealNumber → Prop
  | plus : DenotesImag mark ['+'] (.marked mark 1)
  | minus : DenotesImag mark ['-'] (.marked mark (-1))
  | literal {s body y} : isSign s = true → RealNumber.parse mark (s :: body) = some y →
      DenotesImag mark (s :: body) y

/-- The text is the literal of a number with the parts `x` and `y`, which `a` and `b` stand for. -/
structure IsRectangular (mark : Option Exactness) (cs a b : List Char) (x y : RealNumber) :
    Prop where
  text : cs = a ++ b ++ ['i']
  real : DenotesReal mark a x
  imag : DenotesImag mark b y

variable {mark : Option Exactness} {cs a b : List Char} {x y : RealNumber}

theorem parseRealPart_eq_some_iff : parseRealPart mark a = some x ↔ DenotesReal mark a x := by
  have hnil : RealNumber.parse mark [] = none := rfl
  constructor
  · intro h
    unfold parseRealPart at h
    split_ifs at h with hempty
    · obtain rfl := List.isEmpty_iff.1 hempty
      cases h
      exact .missing
    · exact .literal h
  · rintro (_ | h)
    · rfl
    · have hne : a.isEmpty = false := by
        rw [Bool.eq_false_iff]
        intro hempty
        rw [List.isEmpty_iff.1 hempty, hnil] at h
        cases h
      rw [parseRealPart, hne]
      exact h

/-- A bare sign is read as one or minus one. -/
theorem parse_bareSign (mark : Option Exactness) :
    RealNumber.parse mark ['+', '1'] = some (.marked mark 1) ∧
      RealNumber.parse mark ['-', '1'] = some (.marked mark (-1)) := by
  obtain _ | _ | _ := mark <;> decide +kernel

theorem parseImagPart_eq_some_iff {s : Char} {body : List Char} (hs : isSign s = true) :
    parseImagPart mark (s :: body) = some y ↔ DenotesImag mark (s :: body) y := by
  have hbare (s : Char) (hs : isSign s = true) : RealNumber.parse mark [s] ≠ some y := fun h =>
    (RealNumber.unbroken_of_parse_cons hs h).ne_nil rfl
  obtain ⟨hplus, hminus⟩ := parse_bareSign mark
  by_cases hbody : body = []
  · subst hbody
    simp only [isSign, Bool.or_eq_true, decide_eq_true_eq] at hs
    constructor
    · intro h
      obtain rfl | rfl := hs
      · obtain rfl := Option.some.inj (hplus.symm.trans h)
        exact .plus
      · obtain rfl := Option.some.inj (hminus.symm.trans h)
        exact .minus
    · rintro (_ | _ | ⟨hs, h⟩)
      · exact hplus
      · exact hminus
      · exact absurd h (hbare s hs)
  · have hparse : parseImagPart mark (s :: body) = RealNumber.parse mark (s :: body) := by
      simp [parseImagPart, hbody]
    rw [hparse]
    constructor
    · exact .literal hs
    · rintro (_ | _ | ⟨-, h⟩)
      · exact absurd rfl hbody
      · exact absurd rfl hbody
      · exact h

theorem DenotesImag.exists_sign (h : DenotesImag mark b y) :
    ∃ s body, b = s :: body ∧ isSign s = true ∧ ∀ before, splitAfter before body = none := by
  cases h with
  | plus => exact ⟨'+', [], rfl, rfl, fun _ => rfl⟩
  | minus => exact ⟨'-', [], rfl, rfl, fun _ => rfl⟩
  | literal hs h => exact ⟨_, _, rfl, hs, (RealNumber.unbroken_of_parse_cons hs h).unsplit⟩

theorem DenotesReal.last (h : DenotesReal mark a x) :
    ∀ c ∈ a.getLast?, isExponentMark c = false := by
  cases h with
  | missing => simp
  | literal h =>
    obtain ⟨sign, body, rfl, -, hbody⟩ := RealNumber.exists_unbroken h
    intro c hc
    rw [List.getLast?_append_of_ne_nil _ hbody.ne_nil] at hc
    exact hbody.last c hc

namespace IsRectangular

/-- The parts of a rectangular literal are found. -/
theorem split (h : IsRectangular mark cs a b x y) : splitImaginary cs.dropLast = some (a, b) := by
  obtain ⟨s, body, rfl, hs, hbody⟩ := h.imag.exists_sign
  rw [h.text, List.dropLast_concat]
  exact splitImaginary_append hs hbody h.real.last

/-- **A rectangular literal has one pair of parts.** -/
theorem unique {a' b' : List Char} {x' y' : RealNumber} (h : IsRectangular mark cs a b x y)
    (h' : IsRectangular mark cs a' b' x' y') : a' = a ∧ b' = b :=
  Prod.mk.inj (Option.some.inj (h'.split.symm.trans h.split))

/-- No literal of a number with two parts is a real literal. -/
theorem parse_eq_none (h : IsRectangular mark cs a b x y) : RealNumber.parse mark cs = none := by
  refine RealNumber.parse_eq_none ?_
  rw [h.text, List.getLast?_concat]

theorem head (h : IsRectangular mark cs a b x y) : cs.head? ≠ some '#' := by
  obtain ⟨s, body, rfl, hs, -⟩ := h.imag.exists_sign
  have hhash {s : Char} (hs : isSign s = true) : some s ≠ some '#' := by
    rintro ⟨⟩
    cases hs
  rw [h.text]
  cases h.real with
  | missing => exact hhash hs
  | literal hreal =>
    obtain ⟨sign, body', rfl, rfl | ⟨s', rfl, hs'⟩, hbody⟩ := RealNumber.exists_unbroken hreal
    · rw [List.nil_append, List.append_assoc, List.head?_append_of_ne_nil _ hbody.ne_nil]
      exact hbody.head
    · exact hhash hs'

end IsRectangular

/-- Rectangular literals are read by their parts. -/
theorem parseRectangular_eq_some_iff {n : Number} : parseRectangular mark cs = some n ↔
    ∃ a b x y, IsRectangular mark cs a b x y ∧ n = rectangular x y := by
  unfold parseRectangular
  constructor
  · intro h
    split_ifs at h with hlast
    split at h
    · rename_i a b hsplit
      obtain ⟨hcs, s, body, rfl, hs⟩ := eq_of_splitImaginary hsplit
      split at h
      · rename_i x y hx hy
        cases h
        refine ⟨a, s :: body, x, y, ⟨?_, parseRealPart_eq_some_iff.1 hx,
          (parseImagPart_eq_some_iff hs).1 hy⟩, rfl⟩
        rw [← hcs, List.dropLast_append_getLast? _ hlast]
      · cases h
    · cases h
  · rintro ⟨a, b, x, y, h, rfl⟩
    have hlast : cs.getLast? = some 'i' := by rw [h.text, List.getLast?_concat]
    obtain ⟨s, body, rfl, hs, -⟩ := h.imag.exists_sign
    rw [if_pos hlast, h.split]
    simp only [parseRealPart_eq_some_iff.2 h.real, (parseImagPart_eq_some_iff hs).2 h.imag]

/-! ### Exactness marks -/

/-- The exactness marks in front of literals and what they ask for. -/
def exactnessMarks : List (List Char × Option Exactness) :=
  [([], none), (['#', 'e'], some .exact), (['#', 'E'], some .exact), (['#', 'i'], some .inexact),
    (['#', 'I'], some .inexact)]

theorem parseChars_append {front cs : List Char} (hfront : (front, mark) ∈ exactnessMarks)
    (hhead : cs.head? ≠ some '#') : parseChars (front ++ cs) = parseMarked mark cs := by
  simp only [exactnessMarks, List.mem_cons, Prod.mk.injEq, List.not_mem_nil, or_false] at hfront
  obtain ⟨rfl, rfl⟩ | ⟨rfl, rfl⟩ | ⟨rfl, rfl⟩ | ⟨rfl, rfl⟩ | ⟨rfl, rfl⟩ := hfront
  · exact parseChars_of_head hhead
  all_goals rfl

/-- A text that is read is a mark and a literal under it. -/
theorem eq_of_parseChars {cs : List Char} {n : Number} (h : parseChars cs = some n) :
    ∃ front mark rest, (front, mark) ∈ exactnessMarks ∧ cs = front ++ rest ∧
      (front = [] → rest.head? ≠ some '#') ∧ parseMarked mark rest = some n := by
  unfold parseChars at h
  split at h
  · rename_i c rest
    split at h
    · rename_i e he
      refine ⟨['#', c], some e, rest, ?_, rfl, by simp, h⟩
      unfold Exactness.ofLetter? at he
      split_ifs at he with hexact hinexact
      · cases he
        obtain rfl | rfl := hexact <;> simp [exactnessMarks]
      · cases he
        obtain rfl | rfl := hinexact <;> simp [exactnessMarks]
    · cases h
  · rename_i hne
    refine ⟨[], none, cs, by simp [exactnessMarks], rfl, fun _ hhead => ?_, h⟩
    obtain ⟨rest, rfl⟩ := List.head?_eq_some_iff.1 hhead
    cases rest with
    | nil => cases h
    | cons c rest => exact hne c rest rfl

/-- **Rectangular literals are read by their parts.**  A mark, what stands for a real part, what
stands for an imaginary part and `i` are the literal of the number with these parts, which are read
under the mark.  Conversely a text that is read is a mark and either a real literal or, in exactly
one way, the parts of a rectangular literal. -/
theorem parse_rectangular :
    (∀ front mark, (front, mark) ∈ exactnessMarks →
      ∀ a b x y, DenotesReal mark a x → DenotesImag mark b y →
      parse (String.ofList (front ++ (a ++ b ++ ['i']))) = some (rectangular x y)) ∧
    ∀ s n, parse s = some n → ∃ front mark cs, (front, mark) ∈ exactnessMarks ∧
      s.toList = front ++ cs ∧
      (front = [] → cs.head? ≠ some '#') ∧
      Xor (∃ x, RealNumber.parse mark cs = some x ∧ n = ofReal x)
        (∃ a b x y, IsRectangular mark cs a b x y ∧ n = rectangular x y ∧
          ∀ a' b' x' y', IsRectangular mark cs a' b' x' y' → a' = a ∧ b' = b) := by
  constructor
  · intro front mark hfront a b x y hreal himag
    have h : IsRectangular mark (a ++ b ++ ['i']) a b x y := ⟨rfl, hreal, himag⟩
    rw [parse, String.toList_ofList, parseChars_append hfront h.head, parseMarked, h.parse_eq_none]
    exact parseRectangular_eq_some_iff.2 ⟨a, b, x, y, h, rfl⟩
  · intro s n hn
    obtain ⟨front, mark, cs, hfront, hs, hhead, hcs⟩ := eq_of_parseChars hn
    refine ⟨front, mark, cs, hfront, hs, hhead, ?_⟩
    unfold parseMarked at hcs
    split at hcs
    · rename_i x hx
      cases hcs
      refine Or.inl ⟨⟨x, hx, rfl⟩, ?_⟩
      rintro ⟨a, b, x', y', h, -⟩
      rw [h.parse_eq_none] at hx
      cases hx
    · rename_i hx
      obtain ⟨a, b, x, y, h, rfl⟩ := parseRectangular_eq_some_iff.1 hcs
      refine Or.inr ⟨⟨a, b, x, y, h, rfl, fun a' b' x' y' h' => h.unique h'⟩, ?_⟩
      rintro ⟨x', hx', -⟩
      rw [hx] at hx'
      cases hx'

/-- The literal `#e1.e-3-i`, whose exponent has a sign and whose imaginary part is a bare one. -/
theorem parse_rectangular_bare :
    DenotesReal (some .exact) "1.e-3".toList (.exact (1 / 1000)) ∧
      DenotesImag (some .exact) ['-'] (.exact (-1)) ∧
      parse (String.ofList (['#', 'e'] ++ ("1.e-3".toList ++ ['-'] ++ ['i']))) =
        some (.exact ⟨1 / 1000, -1⟩) ∧
      ∃ front mark cs, (front, mark) ∈ exactnessMarks ∧ "#e1.e-3-i".toList = front ++ cs ∧
        (front = [] → cs.head? ≠ some '#') ∧
        Xor (∃ x, RealNumber.parse mark cs = some x ∧ (.exact ⟨1 / 1000, -1⟩ : Number) = ofReal x)
          (∃ a b x y, IsRectangular mark cs a b x y ∧ .exact ⟨1 / 1000, -1⟩ = rectangular x y ∧
            ∀ a' b' x' y', IsRectangular mark cs a' b' x' y' → a' = a ∧ b' = b) := by
  have hreal : DenotesReal (some .exact) "1.e-3".toList (.exact (1 / 1000)) :=
    .literal (by decide +kernel)
  have himag : DenotesImag (some .exact) ['-'] (.exact (-1)) := .minus
  have hparse := parse_rectangular.1 ['#', 'e'] (some .exact) (by decide) _ _ _ _ hreal himag
  exact ⟨hreal, himag, hparse, parse_rectangular.2 "#e1.e-3-i" _ hparse⟩

end Number

end Scheme
