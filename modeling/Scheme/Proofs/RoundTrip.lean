import Mathlib
import Scheme.Datum.Equality
import Scheme.Proofs.Grammar
import Scheme.Proofs.Spelling

/-!
# Written data read back

The text of a datum yields tokens that derive an equal datum.  Two things can go wrong.  A NaN is
equal to nothing, not even to the NaN that is read for it.  And the marks `,` and `#,` are extended
by an `@` that follows them, so that the operand must not start with one.

* `Datum.isNaNFree`: no number of the datum has a NaN as a part;
* `Datum.hasGluedMark`: somewhere in the text a mark is extended by its operand;
* `spelled_datum`: the tokens of a datum's text;
* `readOne_write`: the round trip.
-/

namespace Scheme

namespace Datum

variable {ι ξ : Type}

mutual

/-- No number of the datum has a NaN as a part. -/
def isNaNFree : Datum ι ξ → Bool
  | .number n => n.isNaNFree
  | .pair _ car cdr => isNaNFree car && isNaNFree cdr
  | .vector _ items => areNaNFree items
  | _ => true

/-- No number of the items has a NaN as a part. -/
def areNaNFree : List (Datum ι ξ) → Bool
  | [] => true
  | x :: xs => isNaNFree x && areNaNFree xs

end

/-- The mark of `keyword` is extended by its operand: a symbol written without bars that starts with
`@`. -/
def extendsMark (keyword : String) : Datum ι ξ → Bool
  | .symbol s =>
    (keyword = "unquote" || keyword = "unsyntax") && !needsBars s.toList &&
      s.toList.head? = some '@'
  | _ => false

mutual

/-- Somewhere in the text of the datum a mark is extended by its operand. -/
def hasGluedMark : Datum ι ξ → Bool
  | .pair _ (.symbol s) (.pair _ x .nil) => extendsMark s x || hasGluedMark x
  | .pair _ car cdr => hasGluedMark car || tailHasGluedMark cdr
  | .vector _ items => itemsHaveGluedMark items
  | _ => false

/-- The same for what follows the first element of a list, where no list is abbreviated. -/
def tailHasGluedMark : Datum ι ξ → Bool
  | .pair _ car cdr => hasGluedMark car || tailHasGluedMark cdr
  | .vector _ items => itemsHaveGluedMark items
  | _ => false

/-- The same for the items of a vector. -/
def itemsHaveGluedMark : List (Datum ι ξ) → Bool
  | [] => false
  | x :: xs => hasGluedMark x || itemsHaveGluedMark xs

end

/-! ### Equal data -/

/-- The data are equal, whatever labels and objects count as the same. -/
def Same (d e : Datum ι ξ) : Prop := ∀ same sameObject, equalBy same sameObject d e = true

theorem same_pair {l l' : ι} {a a' d d' : Datum ι ξ} (ha : Same a a') (hd : Same d d') :
    Same (.pair l a d) (.pair l' a' d') := by
  intro same sameObject
  simp [equalBy, ha same sameObject, hd same sameObject]

/-- Items are equal one by one. -/
def SameItems (xs ys : List (Datum ι ξ)) : Prop :=
  ∀ same sameObject, equalItems same sameObject xs ys = true

theorem sameItems_cons {x y : Datum ι ξ} {xs ys : List (Datum ι ξ)} (h : Same x y)
    (hs : SameItems xs ys) : SameItems (x :: xs) (y :: ys) := by
  intro same sameObject
  simp [equalItems, h same sameObject, hs same sameObject]

theorem same_vector {l l' : ι} {xs ys : List (Datum ι ξ)} (h : SameItems xs ys) :
    Same (.vector l xs) (.vector l' ys) := by
  intro same sameObject
  simpa [equalBy] using h same sameObject

end Datum

namespace Reader

open Datum

/-! ### The text of a list after its first element -/

theorem tailBefore_nil (rest : List Char) : tailBefore .written (.nil : Sexp) rest = ')' :: rest :=
  rfl

theorem tailBefore_pair (car cdr : Sexp) (rest : List Char) :
    tailBefore .written (.pair () car cdr) rest =
      ' ' :: car.charsBefore .written (cdr.tailBefore .written rest) := by
  conv_lhs => unfold tailBefore

/-! ### The text of a vector -/

theorem charsBefore_vector_nil (l : Unit) (rest : List Char) :
    charsBefore .written (.vector l [] : Sexp) rest = "#()".toList ++ rest := by
  conv_lhs => unfold charsBefore

theorem charsBefore_vector_cons (l : Unit) (x : Sexp) (xs : List Sexp) (rest : List Char) :
    charsBefore .written (.vector l (x :: xs)) rest =
      "#(".toList ++ x.charsBefore .written (itemsBefore .written xs (')' :: rest)) := by
  conv_lhs => unfold charsBefore

theorem charsBefore_bytes (l : Unit) (data : List UInt8) (rest : List Char) :
    charsBefore .written (.bytes l data : Sexp) rest =
      "#vu8(".toList ++ bytesText data ++ [')'] ++ rest := by
  unfold charsBefore atomText
  rfl

/-! ### What the tokens of a text derive -/

/-- The text of a datum yields the tokens of an equal one. -/
def Spelled (d : Sexp) : Prop :=
  ∃ (x : Derivation .datum) (d' : Sexp), Derives x d' ∧ d.Same d' ∧
    ∀ rest, WordEnds rest → Yields (d.charsBefore .written rest) x.kinds rest

/-- The texts of the items of a vector, each after a blank, yield the tokens of equal ones. -/
def SpelledItems (xs : List Sexp) : Prop :=
  ∃ (ys : Derivation .data) (xs' : List Sexp), Derives ys xs' ∧ SameItems xs xs' ∧
    ∀ rest, WordEnds rest → Yields (itemsBefore .written xs rest) ys.kinds rest

/-- What follows the first element of a list yields further elements, a dotted tail if there is one,
and the closing parenthesis. -/
def SpelledTail (d : Sexp) : Prop :=
  ∃ (ys : Derivation .data) (items : List Sexp), Derives ys items ∧
    ((d.Same (Sexp.ofList items .nil) ∧
        ∀ rest, Yields (d.tailBefore .written rest) (ys.kinds ++ [TokenKind.close]) rest) ∨
      ∃ (x : Derivation .datum) (e : Sexp), Derives x e ∧ d.Same (Sexp.ofList items e) ∧
        ∀ rest, Yields (d.tailBefore .written rest)
          (ys.kinds ++ TokenKind.dot :: (x.kinds ++ [TokenKind.close])) rest)

theorem spelled_of_core {d d' : Sexp} {c : Derivation .core} (hc : Derives c d') (hd : d.Same d')
    (h : ∀ rest, WordEnds rest → Yields (d.charsBefore .written rest) c.kinds rest) : Spelled d :=
  ⟨.datum .noComments c, d', .datum .noComments hc, hd, h⟩

theorem spelled_of_atom {d d' : Sexp} (hd : d.Same d')
    (h : ∀ rest, WordEnds rest → Yields (d.charsBefore .written rest) [.atom d'] rest) :
    Spelled d :=
  spelled_of_core (.atom d') hd h

theorem wordEnds_close (rest : List Char) : WordEnds (')' :: rest) := wordEnds_cons (by decide)

theorem wordEnds_space (rest : List Char) : WordEnds (' ' :: rest) := wordEnds_cons (by decide)

theorem wordEnds_tailBefore (d : Sexp) (rest : List Char) :
    WordEnds (d.tailBefore .written rest) := by
  unfold tailBefore
  split
  · exact wordEnds_close rest
  all_goals exact wordEnds_space _

/-! ### Lists -/

/-- A list that is not abbreviated. -/
theorem spelled_pair {car cdr : Sexp} (hcar : Spelled car) (hcdr : SpelledTail cdr)
    (h : ∀ rest, charsBefore .written (.pair () car cdr) rest =
      '(' :: car.charsBefore .written (cdr.tailBefore .written rest)) :
    Spelled (.pair () car cdr) := by
  obtain ⟨x, a, hx, ha, hcar⟩ := hcar
  obtain ⟨ys, items, hys, ⟨hd, htail⟩ | ⟨y, e, hy, hd, htail⟩⟩ := hcdr
  · refine spelled_of_core (.list (.data hx hys) .noComments) (same_pair ha hd) fun rest _ => ?_
    rw [h]
    have hyields :=
      (yields_open _).cons ((hcar _ (wordEnds_tailBefore cdr rest)).trans (htail rest))
    simpa [Derivation.kinds] using hyields
  · refine spelled_of_core (.dotted hx hys .noComments hy .noComments) (same_pair ha hd)
      fun rest _ => ?_
    rw [h]
    have hyields :=
      (yields_open _).cons ((hcar _ (wordEnds_tailBefore cdr rest)).trans (htail rest))
    simpa [Derivation.kinds] using hyields

theorem spelledTail_nil : SpelledTail .nil := by
  refine ⟨.noData, [], .noData, Or.inl ⟨fun _ _ => rfl, fun rest => ?_⟩⟩
  simpa [Derivation.kinds, tailBefore_nil] using yields_close rest

theorem spelledTail_pair {car cdr : Sexp} (hcar : Spelled car) (hcdr : SpelledTail cdr) :
    SpelledTail (.pair () car cdr) := by
  obtain ⟨x, a, hx, ha, hcar⟩ := hcar
  obtain ⟨ys, items, hys, ⟨hd, htail⟩ | ⟨y, e, hy, hd, htail⟩⟩ := hcdr
  · refine ⟨.data x ys, a :: items, .data hx hys, Or.inl ⟨same_pair ha hd, fun rest => ?_⟩⟩
    have hyields := (yields_space _).trans
      ((hcar _ (wordEnds_tailBefore cdr rest)).trans (htail rest))
    simpa [Derivation.kinds, tailBefore_pair] using hyields
  · refine ⟨.data x ys, a :: items, .data hx hys,
      Or.inr ⟨y, e, hy, same_pair ha hd, fun rest => ?_⟩⟩
    have hyields := (yields_space _).trans
      ((hcar _ (wordEnds_tailBefore cdr rest)).trans (htail rest))
    simpa [Derivation.kinds, tailBefore_pair] using hyields

theorem yields_dot {rest : List Char} (hrest : WordEnds rest) : Yields ('.' :: rest) [.dot] rest :=
  @yields_word ['.'] rest rest _ (by simp) (List.all_eq_true.1 (by decide)) hrest
    fun _ _ hgs => ⟨0, by simp [classify], hgs⟩

/-- A dotted tail. -/
theorem spelledTail_end {d : Sexp} (hd : Spelled d)
    (h : ∀ rest, d.tailBefore .written rest =
      ' ' :: '.' :: ' ' :: d.charsBefore .written (')' :: rest)) : SpelledTail d := by
  obtain ⟨x, e, hx, he, hd⟩ := hd
  refine ⟨.noData, [], .noData, Or.inr ⟨x, e, hx, he, fun rest => ?_⟩⟩
  rw [h]
  have hyields :=
    (yields_space _).trans ((yields_dot (wordEnds_space _)).trans ((yields_space _).trans
    ((hd _ (wordEnds_close rest)).trans (yields_close rest))))
  simpa [Derivation.kinds] using hyields

/-! ### Vectors -/

theorem spelledItems_nil : SpelledItems [] :=
  ⟨.noData, [], .noData, fun _ _ => rfl, fun rest _ => by
    simpa [Derivation.kinds, itemsBefore] using Yields.refl rest⟩

theorem wordEnds_itemsBefore (xs : List Sexp) {rest : List Char} (h : WordEnds rest) :
    WordEnds (itemsBefore .written xs rest) := by
  cases xs with
  | nil => simpa [itemsBefore] using h
  | cons x xs =>
    rw [itemsBefore]
    exact wordEnds_space _

theorem spelledItems_cons {x : Sexp} {xs : List Sexp} (hx : Spelled x) (hxs : SpelledItems xs) :
    SpelledItems (x :: xs) := by
  obtain ⟨y, x', hy, hsame, hx⟩ := hx
  obtain ⟨ys, xs', hys, hsames, hxs⟩ := hxs
  refine ⟨.data y ys, x' :: xs', .data hy hys, sameItems_cons hsame hsames, fun rest hrest => ?_⟩
  have hyields := (yields_space _).trans
    ((hx _ (wordEnds_itemsBefore xs hrest)).trans (hxs rest hrest))
  simpa [Derivation.kinds, itemsBefore] using hyields

theorem spelled_vector_nil : Spelled (.vector () []) := by
  refine spelled_of_core (.vector .noData .noComments) (fun _ _ => rfl) fun rest _ => ?_
  have hyields := (yields_vectorOpen _).trans (yields_close rest)
  simpa [Derivation.kinds, charsBefore_vector_nil] using hyields

theorem spelled_vector_cons {x : Sexp} {xs : List Sexp} (hx : Spelled x) (hxs : SpelledItems xs) :
    Spelled (.vector () (x :: xs)) := by
  obtain ⟨y, x', hy, hsame, hx⟩ := hx
  obtain ⟨ys, xs', hys, hsames, hxs⟩ := hxs
  refine spelled_of_core (.vector (.data hy hys) .noComments)
    (same_vector (sameItems_cons hsame hsames)) fun rest _ => ?_
  have hyields :=
    (yields_vectorOpen _).trans ((hx _ (wordEnds_itemsBefore xs (wordEnds_close rest))).trans
    ((hxs _ (wordEnds_close rest)).trans (yields_close rest)))
  simpa [Derivation.kinds, charsBefore_vector_cons] using hyields

/-! ### Bytevectors -/

/-- The derivation of bytes without comments between them. -/
def byteItems : List UInt8 → Derivation .data
  | [] => .noData
  | b :: bs => .data (.datum .noComments (.atom (byteDatum b))) (byteItems bs)

theorem derives_byteItems (data : List UInt8) : Derives (byteItems data) (data.map byteDatum) := by
  induction data with
  | nil => exact .noData
  | cons b data ih => exact .data (.datum .noComments (.atom _)) ih

theorem yields_byte (b : UInt8) {rest : List Char} (hrest : WordEnds rest) :
    Yields ((toString b.toNat).toList ++ rest) [.atom (byteDatum b)] rest := by
  have htext : (toString b.toNat).toList = Nat.toDigits 10 b.toNat := by simp
  have hdigits : isDigits (Nat.toDigits 10 b.toNat) = true :=
    isDigits_eq_true_iff.2 ⟨Nat.toDigits_ne_nil, isDigit_toDigits _⟩
  have hyields := yields_digits hdigits hrest
  rw [digitsValue_toDigits] at hyields
  rw [htext]
  exact hyields

theorem bytesText_cons_cons (b c : UInt8) (data : List UInt8) :
    bytesText (b :: c :: data) = (toString b.toNat).toList ++ ' ' :: bytesText (c :: data) := by
  simp [bytesText, String.intercalate_cons_cons]

theorem yields_bytesText (data : List UInt8) (rest : List Char) :
    Yields (bytesText data ++ ')' :: rest) (byteItems data).kinds (')' :: rest) := by
  match data with
  | [] => simpa [bytesText, byteItems, Derivation.kinds] using Yields.refl (')' :: rest)
  | [b] =>
    have hyields := yields_byte b (wordEnds_close rest)
    simpa [bytesText, byteItems, Derivation.kinds] using hyields
  | b :: c :: data =>
    have hyields := (yields_byte b (wordEnds_space _)).cons
      ((yields_space _).trans (yields_bytesText (c :: data) rest))
    rw [bytesText_cons_cons, List.append_assoc]
    exact hyields

theorem spelled_bytes (data : List UInt8) : Spelled (.bytes () data) := by
  refine spelled_of_core (.bytes (derives_byteItems data) .noComments)
    (fun _ _ => by simp [equalBy])
    fun rest _ => ?_
  have hyields :=
    (yields_bytesOpen _).trans ((yields_bytesText data rest).trans (yields_close rest))
  simpa [Derivation.kinds, charsBefore_bytes] using hyields

/-! ### Abbreviations -/

theorem head?_mark {s mark : String} (h : quotationMark? s = some mark) (rest : List Char) :
    (mark.toList ++ rest).head? ≠ some '@' := by
  have hall : ∀ p ∈ quotations, p.2.toList ≠ [] ∧ p.2.toList.head? ≠ some '@' := by decide
  obtain ⟨before, after, hsplit, -⟩ := List.lookup_eq_some_iff.1 h
  obtain ⟨hne, hhead⟩ := hall (s, mark) (by rw [hsplit]; simp)
  obtain ⟨c, cs, hcs⟩ := List.exists_cons_of_ne_nil hne
  rw [hcs] at hhead ⊢
  exact hhead

theorem head?_charsBefore_pair (car cdr : Sexp) (rest : List Char) :
    (charsBefore .written (.pair () car cdr) rest).head? ≠ some '@' := by
  unfold charsBefore
  split
  · rename_i s x _ heq
    split
    · rename_i mark hmark
      exact head?_mark hmark _
    · simp
  · simp
  · rename_i heq
    cases heq
  · rename_i heq
    cases heq
  · rename_i hpair _ _
    exact absurd rfl (hpair _ _ _)

/-- A text that starts with `@` is that of a symbol without bars. -/
theorem extendsMark_of_head? {keyword : String} {x : Sexp} {rest : List Char}
    (hkeyword : keyword = "unquote" ∨ keyword = "unsyntax") (hn : x.isNaNFree = true)
    (h : (x.charsBefore .written rest).head? = some '@') : extendsMark keyword x = true := by
  cases x with
  | symbol s =>
    change (symbolText .written s.toList ++ rest).head? = some '@' at h
    unfold symbolText at h
    split_ifs at h with hbars
    · simp [barred] at h
    · simp only [true_and, Bool.not_eq_true] at hbars
      have hne : s.toList ≠ [] := by
        intro hnil
        rw [hnil] at hbars
        cases hbars
      obtain ⟨c, cs, hcs⟩ := List.exists_cons_of_ne_nil hne
      rw [hcs] at h hbars
      obtain rfl : c = '@' := Option.some.inj h
      simp [extendsMark, hkeyword, hcs, hbars]
  | boolean b => cases b <;> cases h
  | char c => cases h
  | string s => cases h
  | number n =>
    rw [isNaNFree] at hn
    exact absurd h (((Number.nameChar_chars hn).2.append rest).ne rfl rfl)
  | nil => cases h
  | pair l car cdr => exact absurd h (head?_charsBefore_pair car cdr rest)
  | vector l items =>
    cases items with
    | nil => simp [charsBefore_vector_nil] at h
    | cons x xs => simp [charsBefore_vector_cons] at h
  | bytes l data => simp [charsBefore_bytes] at h
  | object x => cases x

theorem charsBefore_abbreviation {s mark : String} (hmark : quotationMark? s = some mark) (x : Sexp)
    (rest : List Char) : charsBefore .written (.pair () (.symbol s) (.pair () x .nil)) rest =
      mark.toList ++ x.charsBefore .written rest := by
  conv_lhs => unfold charsBefore
  rw [hmark]

/-- A mark that is not extended yields its keyword. -/
theorem yields_abbreviation {s mark : String} {x : Sexp} (hmark : quotationMark? s = some mark)
    (hn : x.isNaNFree = true) (hg : extendsMark s x = false) (rest : List Char) :
    Yields (charsBefore .written (.pair () (.symbol s) (.pair () x .nil)) rest) [.quotation s]
      (x.charsBefore .written rest) := by
  have hhead : s = "unquote" ∨ s = "unsyntax" → (x.charsBefore .written rest).head? ≠ some '@' := by
    intro hs hhead
    rw [extendsMark_of_head? hs hn hhead] at hg
    cases hg
  rw [charsBefore_abbreviation hmark]
  exact yields_mark hmark hhead

theorem spelled_abbreviation {s mark : String} {x : Sexp} (hmark : quotationMark? s = some mark)
    (hn : x.isNaNFree = true) (hg : extendsMark s x = false) (hx : Spelled x) :
    Spelled (.pair () (.symbol s) (.pair () x .nil)) := by
  obtain ⟨y, d, hy, hsame, hx⟩ := hx
  refine spelled_of_core (.quotation s hy) ?_ fun rest hrest => ?_
  · exact same_pair (fun _ _ => by simp [equalBy, sameAtom]) (same_pair hsame fun _ _ => rfl)
  · simpa [Derivation.kinds] using (yields_abbreviation hmark hn hg rest).cons (hx rest hrest)

/-! ### All data -/

theorem eq_of_abbreviation? {car cdr : Sexp} {mark : String} {x : Sexp}
    (h : (Datum.pair () car cdr).abbreviation? = some (mark, x)) :
    ∃ s, car = .symbol s ∧ cdr = .pair () x .nil ∧ quotationMark? s = some mark := by
  unfold abbreviation? at h
  split at h
  · rename_i _ s _ y heq
    injection heq with _ hcar hcdr
    obtain ⟨mark', hmark, heq⟩ := Option.map_eq_some_iff.1 h
    cases heq
    exact ⟨s, hcar, hcdr, hmark⟩
  · cases h

/-- A list that is not abbreviated stands between parentheses. -/
theorem charsBefore_pair {car cdr : Sexp} (h : (Datum.pair () car cdr).abbreviation? = none)
    (rest : List Char) : charsBefore .written (.pair () car cdr) rest =
      '(' :: car.charsBefore .written (cdr.tailBefore .written rest) := by
  conv_lhs => unfold charsBefore
  split
  · rename_i s x _ heq
    injection heq with _ hcar hcdr
    subst hcar hcdr
    rw [abbreviation?, Option.map_eq_none_iff] at h
    rw [h]
    rfl
  · rename_i heq
    injection heq with _ hcar hcdr
    subst hcar hcdr
    rfl
  · rename_i heq
    cases heq
  · rename_i heq
    cases heq
  · rename_i hpair _ _
    exact absurd rfl (hpair _ _ _)

theorem hasGluedMark_pair {car cdr : Sexp} (h : (Datum.pair () car cdr).hasGluedMark = false) :
    car.hasGluedMark = false ∧ cdr.tailHasGluedMark = false := by
  unfold hasGluedMark at h
  split at h
  · rename_i s x heq
    injection heq with _ hcar hcdr
    subst hcar hcdr
    rw [Bool.or_eq_false_iff] at h
    exact ⟨rfl, by simp [tailHasGluedMark, h.2]⟩
  · rename_i heq
    injection heq with _ hcar hcdr
    subst hcar hcdr
    rwa [Bool.or_eq_false_iff] at h
  · rename_i heq
    cases heq
  · rename_i hpair _
    exact absurd rfl (hpair _ _ _)

/-- What follows the first element of a list: nothing, more elements, or a dotted tail. -/
theorem tail_cases (d : Sexp) : d = .nil ∨ (∃ car cdr, d = .pair () car cdr) ∨
    (d.tailHasGluedMark = d.hasGluedMark ∧ ∀ rest, d.tailBefore .written rest =
      ' ' :: '.' :: ' ' :: d.charsBefore .written (')' :: rest)) := by
  cases d with
  | nil => exact Or.inl rfl
  | pair l car cdr => exact Or.inr (Or.inl ⟨car, cdr, rfl⟩)
  | vector l items =>
    refine Or.inr (Or.inr ⟨by simp [hasGluedMark, tailHasGluedMark], fun rest => ?_⟩)
    cases items <;> rfl
  | object x => cases x
  | _ =>
    refine Or.inr (Or.inr ⟨rfl, fun rest => ?_⟩)
    unfold charsBefore tailBefore
    simp

mutual

/-- The text of a datum yields the tokens of an equal one. -/
theorem spelled_datum (d : Sexp) (hn : d.isNaNFree = true) (hg : d.hasGluedMark = false) :
    Spelled d := by
  match d with
  | .symbol s =>
    exact spelled_of_atom (fun _ _ => by simp [equalBy, sameAtom]) fun rest hrest =>
      yields_symbol s hrest
  | .boolean b =>
    exact spelled_of_atom (fun _ _ => by simp [equalBy, sameAtom]) fun rest hrest =>
      yields_boolean b hrest
  | .char c =>
    exact spelled_of_atom (fun _ _ => by simp [equalBy, sameAtom]) fun rest hrest =>
      yields_char c hrest
  | .string s =>
    exact spelled_of_atom (fun _ _ => by simp [equalBy, sameAtom]) fun rest _ =>
      yields_string s rest
  | .number n =>
    obtain ⟨m, hsame, hyields⟩ := yields_number hn
    exact spelled_of_atom (fun _ _ => by simp [equalBy, sameAtom, hsame]) hyields
  | .nil =>
    exact spelled_of_core (.list .noData .noComments) (fun _ _ => rfl) fun rest _ =>
      (yields_open _).cons (yields_close rest)
  | .pair () car cdr =>
    rw [isNaNFree, Bool.and_eq_true] at hn
    cases habbr : (Datum.pair () car cdr).abbreviation? with
    | some p =>
      obtain ⟨s, rfl, rfl, hmark⟩ := eq_of_abbreviation? habbr
      rw [hasGluedMark, Bool.or_eq_false_iff] at hg
      have hx : p.2.isNaNFree = true := by simpa [isNaNFree] using hn.2
      exact spelled_abbreviation hmark hx hg.1 (spelled_datum p.2 hx hg.2)
    | none =>
      obtain ⟨hcar, hcdr⟩ := hasGluedMark_pair hg
      exact spelled_pair (spelled_datum car hn.1 hcar) (spelled_tail cdr hn.2 hcdr)
        (charsBefore_pair habbr)
  | .vector () [] => exact spelled_vector_nil
  | .vector () (x :: xs) =>
    rw [isNaNFree, areNaNFree, Bool.and_eq_true] at hn
    rw [hasGluedMark, itemsHaveGluedMark, Bool.or_eq_false_iff] at hg
    exact spelled_vector_cons (spelled_datum x hn.1 hg.1) (spelled_items xs hn.2 hg.2)
  | .bytes () data => exact spelled_bytes data
  | .object x => cases x
termination_by 2 * sizeOf d
decreasing_by
  all_goals
    subst_vars
    simp +arith

theorem spelled_tail (d : Sexp) (hn : d.isNaNFree = true) (hg : d.tailHasGluedMark = false) :
    SpelledTail d := by
  obtain rfl | ⟨car, cdr, rfl⟩ | ⟨hglued, hend⟩ := tail_cases d
  · exact spelledTail_nil
  · rw [isNaNFree, Bool.and_eq_true] at hn
    rw [tailHasGluedMark, Bool.or_eq_false_iff] at hg
    exact spelledTail_pair (spelled_datum car hn.1 hg.1) (spelled_tail cdr hn.2 hg.2)
  · exact spelledTail_end (spelled_datum d hn (hglued ▸ hg)) hend
termination_by 2 * sizeOf d + 1
decreasing_by
  all_goals
    subst_vars
    simp +arith

theorem spelled_items (xs : List Sexp) (hn : areNaNFree xs = true)
    (hg : itemsHaveGluedMark xs = false) : SpelledItems xs := by
  match xs with
  | [] => exact spelledItems_nil
  | x :: xs =>
    rw [areNaNFree, Bool.and_eq_true] at hn
    rw [itemsHaveGluedMark, Bool.or_eq_false_iff] at hg
    exact spelledItems_cons (spelled_datum x hn.1 hg.1) (spelled_items xs hn.2 hg.2)
termination_by 2 * sizeOf xs
decreasing_by all_goals simp +arith

end

/-! ### Written texts are printable -/

/-- All characters can be shown. -/
def Printable (cs : List Char) : Prop := ∀ c ∈ cs, Text.isPrintable c = true

theorem printable_append {cs ds : List Char} : Printable (cs ++ ds) ↔ Printable cs ∧ Printable ds :=
  List.forall_mem_append

theorem printable_cons {c : Char} {cs : List Char} :
    Printable (c :: cs) ↔ Text.isPrintable c = true ∧ Printable cs :=
  List.forall_mem_cons

theorem printable_nil : Printable [] := by simp [Printable]

theorem printable_of_all {cs : List Char} (h : cs.all Text.isPrintable = true) : Printable cs :=
  List.all_eq_true.1 h

theorem isPrintable_of_isNameChar {c : Char} (h : isNameChar c = true) :
    Text.isPrintable c = true := by
  simp only [isNameChar, Bool.and_eq_true] at h
  exact h.1.1

theorem printable_flatMap {cs : List Char} {f : Char → List Char} (h : ∀ c, Printable (f c)) :
    Printable (cs.flatMap f) := by
  intro x hx
  obtain ⟨c, -, hc⟩ := List.mem_flatMap.1 hx
  exact h c x hc

theorem printable_hex (c : Char) : Printable (Text.hex c.toNat).toList := fun x hx =>
  isPrintable_of_isNameChar (Text.isNameChar_of_isHexDigit (Text.isHexDigit_hex _ x hx))

theorem printable_hexEscape (c : Char) : Printable (hexEscape c) := by
  have hx : Printable ['\\', 'x'] := printable_of_all (by decide)
  have hsemi : Printable [';'] := printable_of_all (by decide)
  exact printable_append.2 ⟨printable_append.2 ⟨hx, printable_hex c⟩, hsemi⟩

theorem printable_backslash {c : Char} (h : Text.isPrintable c = true) : Printable ['\\', c] := by
  refine printable_cons.2 ⟨by decide, printable_cons.2 ⟨h, printable_nil⟩⟩

theorem printable_barChar (c : Char) : Printable (barChar c) := by
  unfold barChar
  split_ifs with hquote hprint
  · refine printable_backslash ?_
    obtain rfl | rfl := hquote <;> decide
  · exact printable_cons.2 ⟨hprint, printable_nil⟩
  · exact printable_hexEscape c

theorem printable_stringChar (c : Char) : Printable (stringChar c) := by
  unfold stringChar
  by_cases hquote : c = Text.doubleQuote ∨ c = '\\'
  · rw [if_pos hquote]
    refine printable_backslash ?_
    obtain rfl | rfl := hquote <;> decide
  · rw [if_neg hquote]
    cases hletter : Text.layoutLetter? c with
    | some letter =>
      refine printable_backslash ?_
      unfold Text.layoutLetter? at hletter
      split at hletter <;> cases hletter <;> decide
    | none =>
      simp only
      split_ifs with hprint
      · exact printable_cons.2 ⟨hprint, printable_nil⟩
      · exact printable_hexEscape c

theorem printable_symbolText (name : List Char) : Printable (symbolText .written name) := by
  have hbar : Printable ['|'] := printable_of_all (by decide)
  unfold symbolText
  split_ifs with hbars
  · exact printable_append.2 ⟨printable_append.2 ⟨hbar, printable_flatMap printable_barChar⟩, hbar⟩
  · simp only [needsBars, true_and, Bool.or_eq_true, not_or, Bool.not_eq_true', Bool.not_eq_false,
      List.all_eq_true] at hbars
    exact fun c hc => isPrintable_of_isNameChar (hbars.1.2 c hc)

theorem printable_charLiteral (c : Char) : Printable (charLiteral c) := by
  have hhash : Printable ['#', '\\'] := printable_of_all (by decide)
  refine (@printable_append ['#', '\\'] _).2 ⟨hhash, ?_⟩
  cases hname : characterName? c with
  | some name =>
    have hall : ∀ p ∈ characterNames, p.2.toList.all Text.isPrintable = true := by decide
    obtain ⟨before, after, hsplit, -⟩ := List.lookup_eq_some_iff.1 hname
    exact printable_of_all (hall (c, name) (by rw [hsplit]; simp))
  | none =>
    simp only
    split_ifs with hprint
    · exact printable_cons.2 ⟨hprint, printable_nil⟩
    · exact printable_cons.2 ⟨by decide, printable_hex c⟩

theorem printable_bytesText (data : List UInt8) : Printable (bytesText data) := by
  have hbyte (b : UInt8) : Printable (toString b.toNat).toList := by
    have htext : (toString b.toNat).toList = Nat.toDigits 10 b.toNat := by simp
    rw [htext]
    exact fun c hc => isPrintable_of_isNameChar (isNameChar_of_isDigit (isDigit_toDigits _ c hc))
  match data with
  | [] => simp [bytesText, Printable]
  | [b] => simpa [bytesText] using hbyte b
  | b :: c :: data =>
    rw [bytesText_cons_cons]
    exact printable_append.2
      ⟨hbyte b, printable_cons.2 ⟨by decide, printable_bytesText (c :: data)⟩⟩

theorem printable_atomText {d : Sexp} (hn : d.isNaNFree = true) :
    Printable (d.atomText .written) := by
  cases d with
  | symbol s => exact printable_symbolText s.toList
  | boolean b => cases b <;> exact printable_of_all (by decide)
  | char c => exact printable_charLiteral c
  | string s =>
    have hquote : Printable [Text.doubleQuote] := printable_of_all (by decide)
    exact printable_append.2 ⟨printable_append.2 ⟨hquote, printable_flatMap printable_stringChar⟩,
      hquote⟩
  | number n => exact fun c hc => isPrintable_of_isNameChar ((Number.nameChar_chars hn).1 c hc)
  | bytes l data =>
    have hopen : Printable "#vu8(".toList := printable_of_all (by decide)
    have hclose : Printable [')'] := printable_of_all (by decide)
    exact printable_append.2 ⟨printable_append.2 ⟨hopen, printable_bytesText data⟩, hclose⟩
  | object x => cases x
  | nil => exact printable_of_all (by decide)
  | pair l car cdr => exact printable_nil
  | vector l items => exact printable_nil

mutual

/-- The text of a datum is printable, if what follows it is. -/
theorem printable_datum (d : Sexp) (hn : d.isNaNFree = true) {rest : List Char}
    (hrest : Printable rest) :
    Printable (d.charsBefore .written rest) := by
  match d with
  | .pair () car cdr =>
    rw [isNaNFree, Bool.and_eq_true] at hn
    cases habbr : (Datum.pair () car cdr).abbreviation? with
    | some p =>
      obtain ⟨s, rfl, rfl, hmark⟩ := eq_of_abbreviation? habbr
      have hall : ∀ p ∈ quotations, p.2.toList.all Text.isPrintable = true := by decide
      obtain ⟨before, after, hsplit, -⟩ := List.lookup_eq_some_iff.1 hmark
      have hx : p.2.isNaNFree = true := by simpa [isNaNFree] using hn.2
      rw [charsBefore_abbreviation hmark]
      have hprintable : Printable p.1.toList :=
        printable_of_all (hall (s, p.1) (by rw [hsplit]; simp))
      exact printable_append.2 ⟨hprintable, printable_datum p.2 hx hrest⟩
    | none =>
      rw [charsBefore_pair habbr]
      exact printable_cons.2 ⟨by decide, printable_datum car hn.1 (printable_tail cdr hn.2 hrest)⟩
  | .vector () [] =>
    have hempty : Printable "#()".toList := printable_of_all (by decide)
    exact printable_append.2 ⟨hempty, hrest⟩
  | .vector () (x :: xs) =>
    have hopen : Printable "#(".toList := printable_of_all (by decide)
    rw [isNaNFree, areNaNFree, Bool.and_eq_true] at hn
    exact printable_append.2 ⟨hopen, printable_datum x hn.1
      (printable_items xs hn.2 (printable_cons.2 ⟨by decide, hrest⟩))⟩
  | .symbol s => exact printable_append.2 ⟨printable_atomText hn, hrest⟩
  | .boolean b => exact printable_append.2 ⟨printable_atomText hn, hrest⟩
  | .char c => exact printable_append.2 ⟨printable_atomText hn, hrest⟩
  | .string s => exact printable_append.2 ⟨printable_atomText hn, hrest⟩
  | .number n => exact printable_append.2 ⟨printable_atomText hn, hrest⟩
  | .nil => exact printable_append.2 ⟨printable_atomText hn, hrest⟩
  | .bytes () data => exact printable_append.2 ⟨printable_atomText hn, hrest⟩
  | .object x => cases x
termination_by 2 * sizeOf d
decreasing_by
  all_goals
    subst_vars
    simp +arith

theorem printable_tail (d : Sexp) (hn : d.isNaNFree = true) {rest : List Char}
    (hrest : Printable rest) :
    Printable (d.tailBefore .written rest) := by
  have hclose : Printable (')' :: rest) := printable_cons.2 ⟨by decide, hrest⟩
  obtain rfl | ⟨car, cdr, rfl⟩ | ⟨-, hend⟩ := tail_cases d
  · exact hclose
  · rw [isNaNFree, Bool.and_eq_true] at hn
    rw [tailBefore_pair]
    exact printable_cons.2 ⟨by decide, printable_datum car hn.1 (printable_tail cdr hn.2 hrest)⟩
  · have hdot : Printable [' ', '.', ' '] := printable_of_all (by decide)
    rw [hend]
    exact printable_append.2 ⟨hdot, printable_datum d hn hclose⟩
termination_by 2 * sizeOf d + 1
decreasing_by
  all_goals
    subst_vars
    simp +arith

theorem printable_items (xs : List Sexp) (hn : areNaNFree xs = true) {rest : List Char}
    (hrest : Printable rest) : Printable (itemsBefore .written xs rest) := by
  match xs with
  | [] => exact hrest
  | x :: xs =>
    rw [areNaNFree, Bool.and_eq_true] at hn
    rw [itemsBefore]
    exact printable_cons.2 ⟨by decide, printable_datum x hn.1 (printable_items xs hn.2 hrest)⟩
termination_by 2 * sizeOf xs
decreasing_by all_goals simp +arith

end

/-! ### Reading the text of a datum -/

theorem readAllFrom_nil (fuel : Nat) : readAllFrom fuel [] = .ok [] := by
  cases fuel <;> rfl

/-- The glyphs of a printable text: no mark is skipped in front, and no character is at fault. -/
theorem raw_ofString {cs : List Char} (hcs : Printable cs) :
    raw (Source.ofString (String.ofList cs)).glyphs = cs.map fun c => (c, none) := by
  have hscript : Script.ofString (String.ofList cs) = cs.map fun c => (c, none) := by
    rw [Script.ofString, String.toList_ofList]
    refine List.map_congr_left fun c hc => ?_
    have hnul : c.toNat ≠ 0 := by
      intro h0
      have hp := hcs c hc
      simp [Text.isPrintable, h0] at hp
    simp [Script.mark, hnul]
  rw [Source.ofString, hscript, raw_ofScript]
  cases cs with
  | nil => rfl
  | cons c cs =>
    -- a byte-order mark cannot be shown
    refine if_neg ?_
    rintro rfl
    exact absurd (hcs _ List.mem_cons_self) (by decide +kernel)

theorem clean_ofString {cs : List Char} (hcs : Printable cs) :
    Clean (Source.ofString (String.ofList cs)).glyphs := by
  intro g hg
  have hmem : (g.char, g.fault) ∈ raw (Source.ofString (String.ofList cs)).glyphs :=
    List.mem_map_of_mem hg
  rw [raw_ofString hcs] at hmem
  obtain ⟨c, -, hc⟩ := List.mem_map.1 hmem
  exact (Prod.mk.inj hc).2.symm

theorem map_char_ofString {cs : List Char} (hcs : Printable cs) :
    (Source.ofString (String.ofList cs)).glyphs.map Glyph.char = cs := by
  rw [map_char_eq, raw_ofString hcs, List.map_map]
  exact List.map_id cs

/-- A text whose tokens derive a datum reads as that datum. -/
theorem readOne_of_yields {cs : List Char} {x : Derivation .datum} {d : Sexp} (hcs : Printable cs)
    (hyields : Yields cs x.kinds []) (hx : Derives x d) : readOne (String.ofList cs) = .ok d := by
  have hclean := clean_ofString hcs
  have hchars := map_char_ofString hcs
  obtain ⟨ts, gs, hts, hgs, -, hscan⟩ :=
    hyields (Source.ofString (String.ofList cs)).stop _ hchars hclean
  rw [List.map_eq_nil_iff] at hgs
  have htokens : tokens (Source.ofString (String.ofList cs)) = .ok ts := by
    rw [tokens_eq_scan, hclean.headFault, hscan, hgs]
    simp [thenTokens]
  have hread : read ts = (.ok d, []) := by
    have hderived := readWith_derivation hx ts [] [] hts rfl
    rw [List.append_nil] at hderived
    exact hderived
  have hall : readAll (Source.ofString (String.ofList cs)) = .ok [d] := by
    rw [readAll, htokens]
    simp only [readAllFrom, hread, readAllFrom_nil]
  rw [readOne, readText, hall]
  rfl

/-- **Written data read back**: the text of a datum without NaNs reads as exactly one datum, which
is equal to it, unless a mark is extended by its operand. -/
theorem readOne_write {d : Sexp} (hn : d.isNaNFree = true) (hg : d.hasGluedMark = false) :
    ∃ d', readOne d.write = .ok d' ∧ ∀ same sameObject, equalBy same sameObject d d' = true := by
  obtain ⟨x, d', hx, hsame, hyields⟩ := spelled_datum d hn hg
  exact ⟨d', readOne_of_yields (printable_datum d hn printable_nil)
    (hyields [] (by simp [WordEnds])) hx, hsame⟩

/-- The datum `(,|@ b| #(-0.0 "") . #\()`, in which bars keep the operand from the mark. -/
theorem readOne_write_barred :
    let d : Sexp := .pair () (Sexp.ofList [.symbol "unquote", .symbol "@ b"] .nil)
      (.pair () (.vector () [.number (.inexact ⟨-0.0, 0.0⟩), .string ""]) (.char '('))
    d.isNaNFree = true ∧ d.hasGluedMark = false ∧
      ∃ d', readOne d.write = .ok d' ∧ ∀ same sameObject, equalBy same sameObject d d' = true :=
  ⟨by decide, by decide, readOne_write (by decide) (by decide)⟩

end Reader

end Scheme
