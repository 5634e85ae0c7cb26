import Mathlib
import Scheme.Proofs.RoundTrip

/-!
# Quotations read back

A list of a quotation keyword and an operand is written as a mark in front of the operand, with
nothing between them.  It reads back unless somewhere a mark is extended by its operand, and then it
never does.  The second half counts the at-signs in the names of symbols: the reader makes no symbol
with an at-sign that is not in the text of a symbol, and a mark that is extended takes one away.

* `Datum.atSigns`, `TokenKind.atSigns`: the at-signs in the names of symbols;
* `Bounded`: a bound for all tokens that are made of a text;
* `covered_datum`: the text of a datum stays within its at-signs, and below them if a mark is
  extended;
* `readOne_quotation`: which quotations read back.
-/

namespace Scheme

namespace Datum

variable {ι ξ : Type}

mutual

/-- The number of at-signs in the names of the symbols of a datum. -/
def atSigns : Datum ι ξ → Nat
  | .symbol s => s.toList.count '@'
  | .pair _ car cdr => atSigns car + atSigns cdr
  | .vector _ items => itemsAtSigns items
  | _ => 0

/-- The number of at-signs in the names of the symbols of the items. -/
def itemsAtSigns : List (Datum ι ξ) → Nat
  | [] => 0
  | x :: xs => atSigns x + itemsAtSigns xs

end

theorem atSigns_of_sameAtom {sameObject : ξ → ξ → Bool} {d e : Datum ι ξ}
    (h : sameAtom sameObject d e = true) : d.atSigns = e.atSigns := by
  unfold sameAtom at h
  split at h
  · rw [beq_iff_eq] at h
    rw [h]
  all_goals first | rfl | cases h

mutual

/-- Equal data have the same at-signs, where no two pairs are the same object. -/
theorem atSigns_of_equalBy {sameObject : ξ → ξ → Bool} (d e : Datum ι ξ)
    (h : equalBy (fun _ _ => false) sameObject d e = true) : d.atSigns = e.atSigns := by
  unfold equalBy at h
  split at h
  · rename_i a b _ a' b'
    simp only [Bool.false_or, Bool.and_eq_true] at h
    simp only [atSigns, atSigns_of_equalBy a a' h.1, atSigns_of_equalBy b b' h.2]
  · rename_i xs _ ys
    simp only [atSigns, itemsAtSigns_of_equalItems xs ys h]
  · rfl
  · exact atSigns_of_sameAtom h

theorem itemsAtSigns_of_equalItems {sameObject : ξ → ξ → Bool} (xs ys : List (Datum ι ξ))
    (h : equalItems (fun _ _ => false) sameObject xs ys = true) :
    itemsAtSigns xs = itemsAtSigns ys := by
  match xs, ys with
  | [], [] => rfl
  | x :: xs, y :: ys =>
    simp only [equalItems, Bool.and_eq_true] at h
    simp only [itemsAtSigns, atSigns_of_equalBy x y h.1, itemsAtSigns_of_equalItems xs ys h.2]
  | [], _ :: _ => cases h
  | _ :: _, [] => cases h

end

theorem atSigns_ofList (items : List Sexp) (tail : Sexp) :
    (Sexp.ofList items tail).atSigns = itemsAtSigns items + tail.atSigns := by
  induction items with
  | nil => simp [itemsAtSigns]
  | cons x items ih =>
    rw [Sexp.ofList_cons, atSigns, ih, itemsAtSigns]
    omega

end Datum

namespace Reader

open Datum

/-! ### At-signs of tokens -/

/-- The at-signs that a token brings along. -/
def TokenKind.atSigns : TokenKind → Nat
  | .atom d => d.atSigns
  | .quotation keyword => keyword.toList.count '@'
  | _ => 0

/-- The at-signs of all tokens. -/
def kindsAtSigns (ks : List TokenKind) : Nat := (ks.map TokenKind.atSigns).sum

@[simp] theorem kindsAtSigns_nil : kindsAtSigns [] = 0 := rfl

@[simp] theorem kindsAtSigns_cons (k : TokenKind) (ks : List TokenKind) :
    kindsAtSigns (k :: ks) = k.atSigns + kindsAtSigns ks := by
  simp [kindsAtSigns]

@[simp] theorem kindsAtSigns_append (ks ks' : List TokenKind) :
    kindsAtSigns (ks ++ ks') = kindsAtSigns ks + kindsAtSigns ks' := by
  simp [kindsAtSigns]

/-- The at-signs of what a nonterminal denotes. -/
def meaningAtSigns : {n : Nonterminal} → n.Meaning → Nat
  | .datum, d => d.atSigns
  | .core, d => d.atSigns
  | .comments, _ => 0
  | .data, items => itemsAtSigns items

/-- What is derived has no at-signs but those of its tokens. -/
theorem atSigns_le_of_derives {n : Nonterminal} {x : Derivation n} {m : n.Meaning}
    (h : Derives x m) :
    meaningAtSigns m ≤ kindsAtSigns x.kinds := by
  induction h with
  | datum _ _ _ ih =>
    simp only [meaningAtSigns, Derivation.kinds, kindsAtSigns_append] at ih ⊢
    omega
  | atom d => simp [meaningAtSigns, Derivation.kinds, TokenKind.atSigns]
  | list _ _ ih _ =>
    simp only [meaningAtSigns, Derivation.kinds, kindsAtSigns_cons, kindsAtSigns_append,
      atSigns_ofList, atSigns] at ih ⊢
    omega
  | dotted _ _ _ _ _ ihx ihxs _ ihtail _ =>
    simp only [meaningAtSigns, Derivation.kinds, kindsAtSigns_cons, kindsAtSigns_append,
      atSigns_ofList, itemsAtSigns] at ihx ihxs ihtail ⊢
    omega
  | vector _ _ ih _ =>
    simp only [meaningAtSigns, Derivation.kinds, kindsAtSigns_cons, kindsAtSigns_append,
      atSigns] at ih ⊢
    omega
  | bytes => exact Nat.zero_le _
  | quotation keyword _ ih =>
    simp only [meaningAtSigns, Derivation.kinds, kindsAtSigns_cons, atSigns_ofList, itemsAtSigns,
      atSigns, TokenKind.atSigns] at ih ⊢
    omega
  | noComments => exact Nat.zero_le _
  | comment => exact Nat.zero_le _
  | noData => exact Nat.zero_le _
  | data _ _ ihx ihxs =>
    simp only [meaningAtSigns, Derivation.kinds, kindsAtSigns_append, itemsAtSigns] at ihx ihxs ⊢
    omega

/-! ### Bounds for the tokens of a text -/

/-- If the lexer accepts the text, then its tokens have at most `n` at-signs. -/
def Bounded (cs : List Char) (n : Nat) : Prop :=
  ∀ stop gs, gs.map Glyph.char = cs → Clean gs → ∀ ts, scan stop gs = .ok ts →
    kindsAtSigns (ts.map Token.kind) ≤ n

theorem bounded_nil (n : Nat) : Bounded [] n := by
  intro stop gs hgs _ ts hscan
  rw [List.map_eq_nil_iff] at hgs
  subst hgs
  cases hscan
  exact Nat.zero_le n

/-- The tokens of a text and those of what follows it. -/
theorem Yields.bounded {cs rest : List Char} {ks : List TokenKind} {n : Nat} (h : Yields cs ks rest)
    (hrest : Bounded rest n) : Bounded cs (kindsAtSigns ks + n) := by
  intro stop gs hgs hclean us hus
  obtain ⟨ts, gs', hts, hgs', hclean', hscan⟩ := h stop gs hgs hclean
  rw [hscan] at hus
  obtain ⟨more, hmore, rfl⟩ := thenTokens_eq_ok hus
  have hle := hrest stop gs' hgs' hclean' more hmore
  rw [List.map_append, kindsAtSigns_append, hts]
  omega

/-- What may follow the text of a datum: nothing, or a blank or a closing parenthesis and a text
with at most `n` at-signs. -/
inductive Follows : List Char → Nat → Prop where
  | nil (n : Nat) : Follows [] n
  | blank {rest : List Char} {n : Nat} : Bounded rest n → Follows (' ' :: rest) n
  | close {rest : List Char} {n : Nat} : Bounded rest n → Follows (')' :: rest) n

namespace Follows

variable {rest : List Char} {n : Nat}

theorem bounded (h : Follows rest n) : Bounded rest n := by
  cases h with
  | nil n => exact bounded_nil n
  | blank h => simpa using (yields_space _).bounded h
  | close h => simpa [TokenKind.atSigns] using (yields_close _).bounded h

/-- The character after the word `#\` may be taken along with it. -/
theorem bounded_tail (h : Follows rest n) : Bounded rest.tail n := by
  cases h with
  | nil n => exact bounded_nil n
  | blank h => exact h
  | close h => exact h

theorem wordEnds (h : Follows rest n) : WordEnds rest := by
  cases h with
  | nil n => simp [WordEnds]
  | blank h => exact wordEnds_space _
  | close h => exact wordEnds_close _

end Follows

/-! ### Words -/

theorem atSigns_atomOfWord {w : List Char} {place : Option Position} {kind : TokenKind}
    (h : atomOfWord w place = .ok kind) : kind.atSigns ≤ w.count '@' := by
  unfold atomOfWord at h
  split at h
  · split at h
    · cases h
      exact Nat.zero_le _
    · cases h
  · split at h
    · cases h
      exact Nat.zero_le _
    · split_ifs at h
      · cases h
      · cases h
        simp [TokenKind.atSigns, atSigns]

/-- A word that is no mark stands alone. -/
theorem atomOfWord_of_plainWord {w : List Char} {place : Option Position} {kind : TokenKind}
    {count : Nat} (h : (match atomOfWord w place with
      | .ok kind => (.ok (kind, 0) : Except ReadError (TokenKind × Nat))
      | .error e => .error e) = .ok (kind, count)) : atomOfWord w place = .ok kind ∧ count = 0 := by
  split at h
  · rename_i found hfound
    cases h
    exact ⟨hfound, rfl⟩
  · cases h

/-- A word has at most its own at-signs, and what comes after it stays within the bound. -/
theorem atSigns_classify {w rest : List Char} {n count : Nat} {place : Option Position}
    {gs : List Glyph} {kind : TokenKind} (hrest : Follows rest n) (hgs : gs.map Glyph.char = rest)
    (h : classify w place gs = .ok (kind, count)) :
    kind.atSigns ≤ w.count '@' ∧ Bounded ((gs.drop count).map Glyph.char) n := by
  have hpeek : peek gs = none ∨ peek gs = some ' ' ∨ peek gs = some ')' := by
    rw [peek_eq hgs]
    cases hrest <;> simp
  have hhash : hashToken? gs = none := by
    obtain hp | hp | hp := hpeek <;> simp [hashToken?, hp]
  have hopen : peek gs ≠ some '(' := by
    obtain hp | hp | hp := hpeek <;> simp [hp]
  have hzero : Bounded ((gs.drop 0).map Glyph.char) n := by
    rw [List.drop_zero, hgs]
    exact hrest.bounded
  -- without a parenthesis or a mark after it the word is a dot, a character or an atom
  simp only [classify, hhash, hopen, and_false, if_false] at h
  split_ifs at h
  · cases h
    exact ⟨Nat.zero_le _, hzero⟩
  · cases h
    exact ⟨Nat.zero_le _, hzero⟩
  · cases h
    exact ⟨Nat.zero_le _, hzero⟩
  · obtain ⟨hatom, rfl⟩ := atomOfWord_of_plainWord h
    exact ⟨atSigns_atomOfWord hatom, hzero⟩
  · cases gs with
    | nil => cases h
    | cons g gs =>
      cases h
      refine ⟨Nat.zero_le _, ?_⟩
      rw [List.map_drop, hgs, List.drop_one]
      exact hrest.bounded_tail
  · obtain ⟨hatom, rfl⟩ := atomOfWord_of_plainWord h
    exact ⟨atSigns_atomOfWord hatom, hzero⟩

theorem scan_of_meaning_error {stop : Position} {g : Glyph} {gs : List Glyph} {e : ReadError}
    (hclean : Clean (g :: gs)) (hspace : isSpace g.char = false)
    (h : meaning stop (some g.position) g.char (wordRest g gs) (gs.drop (wordRest g gs).length) =
      .error e) : scan stop (g :: gs) = .error e := by
  have hlexeme : lexeme stop g gs = .error e := by
    simp only [lexeme, hclean.faultWithin, h]
  rw [scan_lexeme stop gs hspace, hlexeme]

/-- Whatever a word means, it has at most its own at-signs. -/
theorem bounded_word {w rest : List Char} {n : Nat} (hw : ∀ c ∈ w, isNameChar c = true)
    (hrest : Follows rest n) : Bounded (w ++ rest) (w.count '@' + n) := by
  cases w with
  | nil => simpa using hrest.bounded
  | cons c w =>
    intro stop gs hgs hclean ts hts
    obtain ⟨g, gs, rfl, rfl, hafter⟩ := List.map_eq_cons_iff.1 hgs
    have hname := hw g.char (by simp)
    have hspace := isSpace_of_isNameChar hname
    obtain ⟨htake, hdrop⟩ :=
      takeWhile_word (fun x hx => hw x (List.mem_cons_of_mem _ hx)) hrest.wordEnds hafter
    have hword : wordRest g gs = gs.takeWhile fun g => isNameChar g.char := by
        simp [wordRest, hname]
    rw [← hword] at htake hdrop
    cases hclassify : classify (g.char :: w) (some g.position) (gs.drop (wordRest g gs).length) with
    | error e =>
      have hmeaning : meaning stop (some g.position) g.char (wordRest g gs)
          (gs.drop (wordRest g gs).length) = .error e := by
        simp [meaning, hname, htake, hclassify]
      rw [scan_of_meaning_error hclean hspace hmeaning] at hts
      cases hts
    | ok found =>
      obtain ⟨kind, count⟩ := found
      have hmeaning : meaning stop (some g.position) g.char (wordRest g gs)
          (gs.drop (wordRest g gs).length) = .ok (some kind, count) := by
        simp [meaning, hname, htake, hclassify]
      obtain ⟨us, hus, hscan⟩ := scan_of_meaning hclean hspace hmeaning
      rw [hscan] at hts
      obtain ⟨more, hmore, rfl⟩ := thenTokens_eq_ok hts
      obtain ⟨hkind, hbounded⟩ := atSigns_classify hrest hdrop hclassify
      have hle := hbounded stop _ rfl ((hclean.of_cons.drop _).drop count) more hmore
      rw [List.map_append, kindsAtSigns_append, hus]
      simp only [Option.toList_some, kindsAtSigns_cons, kindsAtSigns_nil]
      omega

/-! ### The text of a datum -/

/-- At most `signs`, and less if a mark is extended. -/
def Within (n signs : Nat) (glued : Bool) : Prop := n ≤ signs ∧ (glued = true → n < signs)

theorem within_self (n : Nat) : Within n n false := ⟨le_rfl, nofun⟩

theorem Within.add {n n' signs signs' : Nat} {glued glued' : Bool} (h : Within n signs glued)
    (h' : Within n' signs' glued') : Within (n + n') (signs + signs') (glued || glued') := by
  obtain ⟨hle, hlt⟩ := h
  obtain ⟨hle', hlt'⟩ := h'
  refine ⟨by omega, fun hglued => ?_⟩
  obtain hg | hg := Bool.or_eq_true_iff.1 hglued
  · have := hlt hg
    omega
  · have := hlt' hg
    omega

/-- The at-signs of a datum cover those of all tokens that are made of its text. -/
def Covered (d : Sexp) : Prop :=
  ∃ n, Within n d.atSigns d.hasGluedMark ∧
    ∀ rest m, Follows rest m → Bounded (d.charsBefore .written rest) (n + m)

/-- The same for what follows the first element of a list. -/
def TailCovered (d : Sexp) : Prop :=
  ∃ n, Within n d.atSigns d.tailHasGluedMark ∧
    ∀ rest m, Bounded rest m → Follows (d.tailBefore .written rest) (n + m)

/-- The same for the items of a vector. -/
def ItemsCovered (xs : List Sexp) : Prop :=
  ∃ n, Within n (itemsAtSigns xs) (itemsHaveGluedMark xs) ∧
    ∀ rest m, Follows rest m → Follows (itemsBefore .written xs rest) (n + m)

/-- A datum without parts yields its own token. -/
theorem covered_of_yields {d : Sexp} {ks : List TokenKind} (hsigns : kindsAtSigns ks = d.atSigns)
    (hglued : d.hasGluedMark = false)
    (h : ∀ rest, WordEnds rest → Yields (d.charsBefore .written rest) ks rest) : Covered d := by
  refine ⟨d.atSigns, hglued ▸ within_self _, fun rest m hrest => ?_⟩
  rw [← hsigns]
  exact (h rest hrest.wordEnds).bounded hrest.bounded

theorem kindsAtSigns_byteItems (data : List UInt8) : kindsAtSigns (byteItems data).kinds = 0 := by
  induction data with
  | nil => rfl
  | cons b data ih =>
    simp [byteItems, Derivation.kinds, TokenKind.atSigns, byteDatum, atSigns, ih]

theorem covered_bytes (data : List UInt8) : Covered (.bytes () data) := by
  refine @covered_of_yields _ (.bytesOpen :: ((byteItems data).kinds ++ [.close])) ?_ rfl
    fun rest _ => ?_
  · simp [TokenKind.atSigns, kindsAtSigns_byteItems, atSigns]
  · have hyields :=
      (yields_bytesOpen _).trans ((yields_bytesText data rest).trans (yields_close rest))
    simpa [charsBefore_bytes] using hyields

/-- A mark that is not extended. -/
theorem covered_mark {s mark : String} {x : Sexp} (hmark : quotationMark? s = some mark)
    (hn : x.isNaNFree = true) (hg : extendsMark s x = false) (hx : Covered x) :
    Covered (.pair () (.symbol s) (.pair () x .nil)) := by
  obtain ⟨n, hwithin, hx⟩ := hx
  refine ⟨s.toList.count '@' + n, ?_, fun rest m hrest => ?_⟩
  · have hglued := (within_self (s.toList.count '@')).add hwithin
    simpa [hasGluedMark, atSigns, hg] using hglued
  · have hbounded := (yields_abbreviation hmark hn hg rest).bounded (hx rest m hrest)
    rw [Nat.add_assoc]
    simpa [TokenKind.atSigns] using hbounded

/-- The mark of a keyword that `@` extends to the mark of another. -/
theorem exists_splicing {s : String} (hs : s = "unquote" ∨ s = "unsyntax") :
    ∃ mark splicing longer, quotationMark? s = some mark ∧ quotationMark? splicing = some longer ∧
      longer.toList = mark.toList ++ ['@'] ∧ splicing ≠ "unquote" ∧ splicing ≠ "unsyntax" ∧
      s.toList.count '@' = 0 ∧ splicing.toList.count '@' = 0 := by
  obtain rfl | rfl := hs
  · exact ⟨",", "unquote-splicing", ",@", by decide⟩
  · exact ⟨"#,", "unsyntax-splicing", "#,@", by decide⟩

/-- A mark that is extended takes the at-sign of its operand. -/
theorem covered_extended {s : String} {x : Sexp} (hg : extendsMark s x = true) :
    Covered (.pair () (.symbol s) (.pair () x .nil)) := by
  cases x with
  | symbol t =>
    simp only [extendsMark, Bool.and_eq_true, Bool.or_eq_true, decide_eq_true_eq,
      Bool.not_eq_true'] at hg
    obtain ⟨⟨hs, hbars⟩, hhead⟩ := hg
    obtain ⟨mark, splicing, longer, hmark, hlonger, htext, hne, hne', hzero, hzero'⟩ :=
      exists_splicing hs
    obtain ⟨w, hw⟩ : ∃ w, t.toList = '@' :: w := List.head?_eq_some_iff.1 hhead
    rw [hw] at hbars
    have hname : ∀ c ∈ w, isNameChar c = true := by
      simp only [needsBars, Bool.or_eq_false_iff, Bool.not_eq_false', List.all_eq_true] at hbars
      exact fun c hc => hbars.1.2 c (List.mem_cons_of_mem _ hc)
    refine ⟨w.count '@', ?_, fun rest m hrest => ?_⟩
    · have hone : t.toList.count '@' = w.count '@' + 1 := by simp [hw]
      constructor <;> simp [atSigns, hzero, hone]
    · -- the longer mark stands in front of the rest of the name
      have hchars :
          charsBefore .written (.pair () (.symbol s) (.pair () (.symbol t) .nil) : Sexp) rest =
          longer.toList ++ (w ++ rest) := by
        have hsymbol : charsBefore .written (.symbol t : Sexp) rest = '@' :: w ++ rest := by
          show symbolText .written t.toList ++ rest = _
          rw [hw, symbolText, hbars]
          rfl
        rw [charsBefore_abbreviation hmark, hsymbol, htext]
        simp
      have hyields := @yields_mark splicing longer (w ++ rest) hlonger fun h =>
        absurd h (not_or.2 ⟨hne, hne'⟩)
      rw [hchars]
      simpa [TokenKind.atSigns, hzero'] using hyields.bounded (bounded_word hname hrest)
  | _ => cases hg

theorem extendsMark_of_not_keyword {s : String} (h : quotationMark? s = none) (x : Sexp) :
    extendsMark s x = false := by
  have hne (keyword : String) (hk : (quotationMark? keyword).isSome = true) : s ≠ keyword := by
    rintro rfl
    rw [h] at hk
    cases hk
  have hunquote := hne "unquote" (by decide)
  have hunsyntax := hne "unsyntax" (by decide)
  cases x with
  | symbol t => simp [extendsMark, hunquote, hunsyntax]
  | _ => rfl

/-- Between parentheses marks are extended in the parts only. -/
theorem hasGluedMark_of_not_abbreviated {car cdr : Sexp}
    (h : (Datum.pair () car cdr).abbreviation? = none) :
    (Datum.pair () car cdr).hasGluedMark = (car.hasGluedMark || cdr.tailHasGluedMark) := by
  conv_lhs => unfold hasGluedMark
  split
  · rename_i s x heq
    injection heq with _ hcar hcdr
    subst hcar hcdr
    rw [abbreviation?, Option.map_eq_none_iff] at h
    simp [extendsMark_of_not_keyword h, hasGluedMark, tailHasGluedMark]
  · rename_i heq
    injection heq with _ hcar hcdr
    rw [hcar, hcdr]
  · rename_i heq
    cases heq
  · rename_i hpair _
    exact absurd rfl (hpair _ _ _)

/-- A list that is not abbreviated. -/
theorem covered_pair {car cdr : Sexp} (habbr : (Datum.pair () car cdr).abbreviation? = none)
    (hcar : Covered car) (hcdr : TailCovered cdr) : Covered (.pair () car cdr) := by
  obtain ⟨n, hwithin, hcar⟩ := hcar
  obtain ⟨k, hwithin', hcdr⟩ := hcdr
  refine ⟨n + k, ?_, fun rest m hrest => ?_⟩
  · rw [hasGluedMark_of_not_abbreviated habbr]
    exact hwithin.add hwithin'
  · have hbounded := (yields_open _).bounded (hcar _ _ (hcdr rest m hrest.bounded))
    rw [charsBefore_pair habbr, Nat.add_assoc]
    simpa [TokenKind.atSigns] using hbounded

theorem tailCovered_nil : TailCovered .nil := by
  refine ⟨0, within_self 0, fun rest m hrest => ?_⟩
  rw [tailBefore_nil, Nat.zero_add]
  exact .close hrest

theorem tailCovered_pair {car cdr : Sexp} (hcar : Covered car) (hcdr : TailCovered cdr) :
    TailCovered (.pair () car cdr) := by
  obtain ⟨n, hwithin, hcar⟩ := hcar
  obtain ⟨k, hwithin', hcdr⟩ := hcdr
  refine ⟨n + k, ?_, fun rest m hrest => ?_⟩
  · rw [atSigns, tailHasGluedMark]
    exact hwithin.add hwithin'
  · rw [tailBefore_pair, Nat.add_assoc]
    exact .blank (hcar _ _ (hcdr rest m hrest))

/-- A dotted tail. -/
theorem tailCovered_end {d : Sexp} (hd : Covered d) (hglued : d.tailHasGluedMark = d.hasGluedMark)
    (h : ∀ rest, d.tailBefore .written rest =
      ' ' :: '.' :: ' ' :: d.charsBefore .written (')' :: rest)) : TailCovered d := by
  obtain ⟨n, hwithin, hd⟩ := hd
  refine ⟨n, hglued ▸ hwithin, fun rest m hrest => ?_⟩
  rw [h]
  refine .blank ?_
  have hbounded := ((yields_dot (wordEnds_space _)).trans (yields_space _)).bounded
    (hd _ _ (.close hrest))
  simpa [TokenKind.atSigns] using hbounded

theorem itemsCovered_nil : ItemsCovered [] := by
  refine ⟨0, within_self 0, fun rest m hrest => ?_⟩
  rwa [itemsBefore, Nat.zero_add]

theorem itemsCovered_cons {x : Sexp} {xs : List Sexp} (hx : Covered x) (hxs : ItemsCovered xs) :
    ItemsCovered (x :: xs) := by
  obtain ⟨n, hwithin, hx⟩ := hx
  obtain ⟨k, hwithin', hxs⟩ := hxs
  refine ⟨n + k, ?_, fun rest m hrest => ?_⟩
  · rw [itemsAtSigns, itemsHaveGluedMark]
    exact hwithin.add hwithin'
  · rw [itemsBefore, Nat.add_assoc]
    exact .blank (hx _ _ (hxs rest m hrest))

theorem covered_vector_nil : Covered (.vector () []) := by
  refine @covered_of_yields _ [.vectorOpen, .close] rfl rfl fun rest _ => ?_
  simpa [charsBefore_vector_nil] using (yields_vectorOpen _).cons (yields_close rest)

theorem covered_vector_cons {x : Sexp} {xs : List Sexp} (hx : Covered x) (hxs : ItemsCovered xs) :
    Covered (.vector () (x :: xs)) := by
  obtain ⟨n, hwithin, hx⟩ := hx
  obtain ⟨k, hwithin', hxs⟩ := hxs
  refine ⟨n + k, ?_, fun rest m hrest => ?_⟩
  · rw [atSigns, hasGluedMark, itemsAtSigns, itemsHaveGluedMark]
    exact hwithin.add hwithin'
  · have hbounded := (yields_vectorOpen _).bounded (hx _ _ (hxs _ _ (.close hrest.bounded)))
    rw [charsBefore_vector_cons, Nat.add_assoc]
    simpa [TokenKind.atSigns] using hbounded

mutual

/-- The text of a datum stays within its at-signs, and below them if a mark is extended. -/
theorem covered_datum (d : Sexp) (hn : d.isNaNFree = true) : Covered d := by
  match d with
  | .symbol s => exact covered_of_yields rfl rfl fun rest hrest => yields_symbol s hrest
  | .boolean b => exact covered_of_yields rfl rfl fun rest hrest => yields_boolean b hrest
  | .char c => exact covered_of_yields rfl rfl fun rest hrest => yields_char c hrest
  | .string s => exact covered_of_yields rfl rfl fun rest _ => yields_string s rest
  | .number n =>
    obtain ⟨m, -, hyields⟩ := yields_number hn
    exact covered_of_yields rfl rfl hyields
  | .nil => exact covered_of_yields rfl rfl fun rest _ => (yields_open _).cons (yields_close rest)
  | .pair () car cdr =>
    rw [isNaNFree, Bool.and_eq_true] at hn
    cases habbr : (Datum.pair () car cdr).abbreviation? with
    | some p =>
      obtain ⟨s, rfl, rfl, hmark⟩ := eq_of_abbreviation? habbr
      have hx : p.2.isNaNFree = true := by simpa [isNaNFree] using hn.2
      cases hg : extendsMark s p.2 with
      | true => exact covered_extended hg
      | false => exact covered_mark hmark hx hg (covered_datum p.2 hx)
    | none => exact covered_pair habbr (covered_datum car hn.1) (covered_tail cdr hn.2)
  | .vector () [] => exact covered_vector_nil
  | .vector () (x :: xs) =>
    rw [isNaNFree, areNaNFree, Bool.and_eq_true] at hn
    exact covered_vector_cons (covered_datum x hn.1) (covered_items xs hn.2)
  | .bytes () data => exact covered_bytes data
  | .object x => cases x
termination_by 2 * sizeOf d
decreasing_by
  all_goals
    subst_vars
    simp +arith

theorem covered_tail (d : Sexp) (hn : d.isNaNFree = true) : TailCovered d := by
  obtain rfl | ⟨car, cdr, rfl⟩ | ⟨hglued, hend⟩ := tail_cases d
  · exact tailCovered_nil
  · rw [isNaNFree, Bool.and_eq_true] at hn
    exact tailCovered_pair (covered_datum car hn.1) (covered_tail cdr hn.2)
  · exact tailCovered_end (covered_datum d hn) hglued hend
termination_by 2 * sizeOf d + 1
decreasing_by
  all_goals
    subst_vars
    simp +arith

theorem covered_items (xs : List Sexp) (hn : areNaNFree xs = true) : ItemsCovered xs := by
  match xs with
  | [] => exact itemsCovered_nil
  | x :: xs =>
    rw [areNaNFree, Bool.and_eq_true] at hn
    exact itemsCovered_cons (covered_datum x hn.1) (covered_items xs hn.2)
termination_by 2 * sizeOf xs
decreasing_by all_goals simp +arith

end

/-! ### Reading quotations -/

theorem read_of_readAllFrom {fuel : Nat} {ts : List Token} {d : Sexp} {more : List Sexp}
    (h : readAllFrom fuel ts = .ok (d :: more)) : ∃ rest, read ts = (.ok d, rest) := by
  cases fuel with
  | zero => cases h
  | succ fuel =>
    unfold readAllFrom at h
    split at h
    · cases h
    · cases h
    · rename_i rest hread
      split at h
      · cases h
        exact ⟨rest, hread⟩
      · cases h

theorem readText_of_readOne {text : String} {d : Sexp} (h : readOne text = .ok d) :
    readText text = .ok [d] := by
  unfold readOne at h
  split at h
  · rename_i data hdata
    rw [hdata]
    match data with
    | [] => cases h
    | [e] => cases h; rfl
    | _ :: _ :: _ => cases h
  · cases h

/-- The datum that is read from a text is derived from the first of its tokens. -/
theorem derivation_of_readOne {text : String} {d : Sexp} (h : readOne text = .ok d) :
    ∃ (ts rest : List Token) (x : Derivation .datum),
      tokens (Source.ofString text) = .ok (ts ++ rest) ∧ x.kinds = ts.map Token.kind ∧
        Derives x d := by
  have hall := readText_of_readOne h
  unfold readText readAll at hall
  split at hall
  · rename_i ts htokens
    obtain ⟨rest, hread⟩ := read_of_readAllFrom hall
    have htraced : Traced [] ts (read ts) := traced_readWith (.nil .noComments)
    rw [hread] at htraced
    obtain ⟨pre, rfl, x, hx, hd⟩ := htraced
    exact ⟨pre, rest, x, htokens, hx, hd⟩
  · cases hall

/-- Whatever is read from a text has at most as many at-signs as its tokens. -/
theorem atSigns_le_of_readOne {cs : List Char} {d : Sexp} {n : Nat} (hcs : Printable cs)
    (hbounded : Bounded cs n) (h : readOne (String.ofList cs) = .ok d) : d.atSigns ≤ n := by
  obtain ⟨ts, rest, x, htokens, hkinds, hx⟩ := derivation_of_readOne h
  have hclean := clean_ofString hcs
  rw [tokens_eq_scan, hclean.headFault] at htokens
  have hle := hbounded _ _ (map_char_ofString hcs) hclean _ htokens
  have hderived : d.atSigns ≤ kindsAtSigns x.kinds := atSigns_le_of_derives hx
  rw [List.map_append, kindsAtSigns_append, ← hkinds] at hle
  omega

/-- A text in which a mark is extended does not read back. -/
theorem equalBy_of_hasGluedMark {d d' : Sexp} (hn : d.isNaNFree = true) (hg : d.hasGluedMark = true)
    (h : readOne d.write = .ok d') :
    equalBy (fun _ _ => false) (fun _ _ => false) d d' = false := by
  obtain ⟨n, ⟨-, hlt⟩, hbounded⟩ := covered_datum d hn
  have hle := atSigns_le_of_readOne (printable_datum d hn printable_nil)
    (hbounded [] 0 (.nil 0)) h
  rw [Bool.eq_false_iff]
  intro heq
  have hsigns := atSigns_of_equalBy d d' heq
  have := hlt hg
  omega

/-- **Quotations read back** unless a mark is extended.  The text of a quotation is its mark in
front of the text of the operand.  If no mark in it is extended, then it reads as a quotation with
the same keyword that is equal to the first.  If one is, then nothing that is read from it is equal
to the first; what is read shares no pairs with it, so that labels do not count. -/
theorem readOne_quotation {s mark : String} {e : Sexp} (hmark : quotationMark? s = some mark)
    (hn : e.isNaNFree = true) :
    let d := Sexp.ofList [.symbol s, e] .nil
    d.write = mark ++ e.write ∧
      (d.hasGluedMark = false → ∃ x, readOne d.write = .ok (Sexp.ofList [.symbol s, x] .nil) ∧
        ∀ same sameObject, equalBy same sameObject d (Sexp.ofList [.symbol s, x] .nil) = true) ∧
      (d.hasGluedMark = true → ∀ d', readOne d.write = .ok d' →
        equalBy (fun _ _ => false) (fun _ _ => false) d d' = false) := by
  intro d
  have hd : d.isNaNFree = true := by simpa [d, isNaNFree] using hn
  refine ⟨?_, fun hg => ?_, fun hg d' => equalBy_of_hasGluedMark hd hg⟩
  · have hchars : d.chars .written = mark.toList ++ e.chars .written :=
      charsBefore_abbreviation hmark e []
    rw [write, hchars, String.ofList_append, String.ofList_toList]
    rfl
  · have hglued : extendsMark s e = false ∧ e.hasGluedMark = false := by
      simpa [d, hasGluedMark] using hg
    obtain ⟨y, x, hy, hsame, hyields⟩ := spelled_datum e hn hglued.2
    have hx : Derives (.datum .noComments (.quotation s y)) (Sexp.ofList [.symbol s, x] .nil) :=
      .datum .noComments (.quotation s hy)
    have htext :
        Yields (d.chars .written) (Derivation.datum .noComments (.quotation s y)).kinds [] :=
      (yields_abbreviation hmark hn hglued.1 []).cons (hyields [] (by simp [WordEnds]))
    refine ⟨x, readOne_of_yields (printable_datum d hd printable_nil) htext hx, ?_⟩
    exact same_pair (fun _ _ => by simp [equalBy, sameAtom]) (same_pair hsame fun _ _ => rfl)

/-- In `(unquote |@ b|)` bars keep the operand from the mark, and in `(quote (unquote @a))` nothing
does. -/
theorem readOne_quotation_unquote :
    let d := Sexp.ofList [.symbol "unquote", .symbol "@ b"] .nil
    let e := Sexp.ofList [.symbol "quote", Sexp.ofList [.symbol "unquote", .symbol "@a"] .nil] .nil
    (∃ x, readOne d.write = .ok (Sexp.ofList [.symbol "unquote", x] .nil) ∧
      ∀ same sameObject, equalBy same sameObject d (Sexp.ofList [.symbol "unquote", x] .nil) =
        true) ∧
      ∀ d', readOne e.write = .ok d' → equalBy (fun _ _ => false) (fun _ _ => false) e d' = false :=
  ⟨(readOne_quotation rfl (by decide)).2.1 (by decide),
    (readOne_quotation rfl (by decide)).2.2 (by decide)⟩

/-- The text of `(unquote @a)` is that of another quotation. -/
theorem readOne_quotation_extended :
    let d := Sexp.ofList [.symbol "unquote", .symbol "@a"] .nil
    let d' := Sexp.ofList [.symbol "unquote-splicing", .symbol "a"] .nil
    d.write = ",@a" ∧ readOne d.write = .ok d' ∧
      equalBy (fun _ _ => false) (fun _ _ => false) d d' = false :=
  ⟨by decide +kernel, rfl, by decide⟩

end Reader

end Scheme
