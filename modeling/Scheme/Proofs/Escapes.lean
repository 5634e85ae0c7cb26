import Mathlib
import Scheme.Proofs.Spelling

/-!
# String literals and their escapes

The text of a string literal is made of characters that stand for themselves and of escapes.  The
letters `u` and `U` are meant to be followed by four and by eight hexadecimal digits; the reader
takes as many as there are up to that number, and is content with one.

* `Escape`, `StringText`: the form of escapes and of string literals, by a rule for the number of
  digits;
* `Recognizes`: a reader takes the texts of a form and no others;
* `recognizes_stringEscape`, `recognizes_quotedRest`: escapes, and texts up to a closing character;
* `FailsWithin`: the ways to fail within a quoted text;
* `stringRest_iff_stringText`: the main result.
-/

namespace Scheme

/-! ### Code points -/

namespace Text

/-- Hexadecimal digits add up to their values by their places. -/
theorem foldlM_hexValue? (digits : List Char) :
    digits.foldlM (fun n c => (hexValue? c).map (16 * n + ·)) 0 =
      (digits.mapM hexValue?).map fun values => Nat.ofDigits 16 values.reverse := by
  induction digits using List.reverseRecOn with
  | nil => rfl
  | append_singleton digits d ih =>
    rw [List.foldlM_append, List.mapM_append, ih]
    cases digits.mapM hexValue? with
    | none => rfl
    | some values =>
      cases hd : hexValue? d with
      | none => simp [hd]
      | some v => simp [hd, Nat.ofDigits_cons, Nat.add_comm]

/-- Hexadecimal digits denote the character whose code point they add up to. -/
def DenotesChar (digits : List Char) (c : Char) : Prop :=
  ∃ values, digits.mapM hexValue? = some values ∧ Nat.ofDigits 16 values.reverse = c.toNat

theorem DenotesChar.isHexDigit {digits : List Char} {c : Char} (h : DenotesChar digits c) :
    ∀ d ∈ digits, isHexDigit d = true := by
  obtain ⟨values, hvalues, -⟩ := h
  induction digits generalizing values with
  | nil => nofun
  | cons d digits ih =>
    rw [List.mapM_cons] at hvalues
    obtain ⟨v, hv, hmore⟩ := Option.bind_eq_some_iff.1 hvalues
    obtain ⟨vs, hvs, -⟩ := Option.bind_eq_some_iff.1 hmore
    refine List.forall_mem_cons.2 ⟨?_, ih vs hvs⟩
    rw [Text.isHexDigit, hv]
    rfl

/-- Digits denote a character if there are any and they add up to its code point. -/
theorem hexChar?_eq_some_iff {digits : List Char} {c : Char} :
    hexChar? digits = some c ↔ 0 < digits.length ∧ DenotesChar digits c := by
  rw [hexChar?_eq_some_iff_ofHex?]
  cases digits with
  | nil => simp [ofHex?]
  | cons d digits =>
    rw [ofHex?_cons, foldlM_hexValue?]
    unfold DenotesChar
    cases (d :: digits).mapM hexValue? with
    | none => simp
    | some values => simp

end Text

namespace Reader

/-! ### What a string literal is -/

/-- The letters that stand for a character after a backslash. -/
def escapeLetters : List (Char × Char) :=
  [('a', Char.ofNat 7), ('b', Char.ofNat 8), ('t', Char.ofNat 9), ('n', Char.ofNat 10),
   ('v', Char.ofNat 11), ('f', Char.ofNat 12), ('r', Char.ofNat 13), ('\x22', '\x22'), ('\\', '\\')]

/-- Which runs of digits an escape with room for `limit` of them takes before the character
`next`. -/
abbrev DigitRule := (limit : Nat) → (digits : List Char) → (next : Option Char) → Prop

/-- All digits have to be there. -/
def DigitRule.exactly : DigitRule := fun limit digits _ => digits.length = limit

/-- One digit is enough, and as many are taken as there are. -/
def DigitRule.upTo : DigitRule := fun limit digits next =>
  0 < digits.length ∧ digits.length ≤ limit ∧
    (digits.length < limit → ∀ c ∈ next, Text.isHexDigit c = false)

/-- The text of an escape after its backslash and before the character `next`, and what it stands
for. -/
inductive Escape (rule : DigitRule) :
    (text : List Char) → (next : Option Char) → (content : List Char) → Prop where
  /-- A letter that stands for a character. -/
  | letter {l c : Char} {next : Option Char} (h : (l, c) ∈ escapeLetters) : Escape rule [l] next [c]
  /-- A line end and all blanks after it, which stand for nothing. -/
  | lineEnd {indent : List Char} {next : Option Char} (h : ∀ c ∈ indent, c = ' ' ∨ c = '\t')
      (hnext : ∀ c ∈ next, ¬(c = ' ' ∨ c = '\t')) : Escape rule ('\n' :: indent) next []
  /-- A code point of one to eight digits and a semicolon. -/
  | codePoint {digits : List Char} {c : Char} {next : Option Char}
      (hlen : digits.length ∈ Set.Icc 1 8)
      (h : Text.DenotesChar digits c) : Escape rule ('x' :: (digits ++ [';'])) next [c]
  /-- A code point of four digits. -/
  | short {digits : List Char} {c : Char} {next : Option Char} (hrule : rule 4 digits next)
      (h : Text.DenotesChar digits c) : Escape rule ('u' :: digits) next [c]
  /-- A code point of eight digits. -/
  | long {digits : List Char} {c : Char} {next : Option Char} (hrule : rule 8 digits next)
      (h : Text.DenotesChar digits c) : Escape rule ('U' :: digits) next [c]

theorem Escape.ne_nil {rule : DigitRule} {text content : List Char} {next : Option Char}
    (h : Escape rule text next content) : text ≠ [] := by
  cases h <;> exact List.cons_ne_nil _ _

/-- A text up to its closing character `quote`, and what it stands for: characters that stand for
themselves, and a backslash before each escape. -/
inductive QuotedText (quote : Char) (escape : List Char → Option Char → List Char → Prop) :
    (text content : List Char) → Prop where
  | close : QuotedText quote escape [quote] []
  | plain {c : Char} {rest cs : List Char} (hquote : c ≠ quote) (hback : c ≠ '\\')
      (h : QuotedText quote escape rest cs) : QuotedText quote escape (c :: rest) (c :: cs)
  | escaped {text rest cs more : List Char} (hescape : escape text rest.head? cs)
      (h : QuotedText quote escape rest more) :
      QuotedText quote escape ('\\' :: (text ++ rest)) (cs ++ more)

/-- The text of a string literal after its opening quote, and the characters it stands for. -/
def StringText (rule : DigitRule) : (text content : List Char) → Prop :=
  QuotedText Text.doubleQuote (Escape rule)

/-! ### Reading escapes -/

/-- The reader `f` succeeds on the texts that start with one of the form `R`, and it gives the
content and the length of that. -/
def Recognizes (f : List Glyph → Except ReadError (List Char × Nat))
    (R : (text : List Char) → (next : Option Char) → (content : List Char) → Prop) : Prop :=
  ∀ gs cs n, f gs = .ok (cs, n) ↔
    ∃ text rest, gs.map Glyph.char = text ++ rest ∧ n = text.length ∧ R text rest.head? cs

theorem letterEscape?_eq_some_iff {l c : Char} : letterEscape? l = some c ↔
    (l, c) ∈ escapeLetters := by
  constructor
  · intro h
    unfold letterEscape? at h
    split at h
    case h_9 =>
      split_ifs at h with hquote
      cases h
      rw [hquote]
      decide
    all_goals
      cases h
      decide
  · intro h
    simp only [escapeLetters, List.mem_cons, Prod.mk.injEq, List.not_mem_nil, or_false] at h
    obtain ⟨rfl, rfl⟩ | ⟨rfl, rfl⟩ | ⟨rfl, rfl⟩ | ⟨rfl, rfl⟩ | ⟨rfl, rfl⟩ | ⟨rfl, rfl⟩ |
      ⟨rfl, rfl⟩ | ⟨rfl, rfl⟩ | ⟨rfl, rfl⟩ := h <;> rfl

/-- After `x` the digits are ended by a semicolon. -/
theorem hexEscapeRest_semicolon {stop : Position} {gs : List Glyph} {c : Char} {n : Nat} :
    hexEscapeRest stop 'x' gs = .ok (c, n) ↔
      ∃ digits rest, gs.map Glyph.char = digits ++ ';' :: rest ∧
      n = digits.length + 1 ∧ digits.length ∈ Set.Icc 1 8 ∧ Text.DenotesChar digits c := by
  constructor
  · intro h
    obtain ⟨rest, hgs, -, hlen, -⟩ := (@hexDigits_eq_iff 8 (hexDigits 8 gs) gs).1 rfl
    have hpeek : peek (gs.drop (hexDigits 8 gs).length) = rest.head? :=
      peek_eq (by rw [List.map_drop, hgs, List.drop_left])
    have hkind : ('x' : Char) ≠ 'u' := by decide
    simp only [hexEscapeRest, hkind, if_false, if_true] at h
    split at h
    · cases h
    · rename_i hsemicolon
      rw [hpeek] at hsemicolon
      obtain ⟨more, rfl⟩ := List.head?_eq_some_iff.1 hsemicolon
      split at h
      · rename_i found hfound
        cases h
        obtain ⟨hpos, hdenotes⟩ := Text.hexChar?_eq_some_iff.1 hfound
        exact ⟨_, more, hgs, rfl, ⟨hpos, hlen⟩, hdenotes⟩
      · cases h
    · cases h
  · rintro ⟨digits, rest, hgs, rfl, ⟨hpos, hlen⟩, hdenotes⟩
    have hdigits : hexDigits 8 gs = digits :=
      hexDigits_eq_iff.2 ⟨_, hgs, hdenotes.isHexDigit, hlen, fun _ => by rintro d ⟨⟩; rfl⟩
    have hpeek : peek (gs.drop digits.length) = some ';' :=
      peek_eq (by rw [List.map_drop, hgs, List.drop_left])
    have hchar : Text.hexChar? digits = some c := Text.hexChar?_eq_some_iff.2 ⟨hpos, hdenotes⟩
    simp [hexEscapeRest, hdigits, hpeek, hchar]

/-- After the other letters the digits end where no more of them are taken. -/
theorem hexEscapeRest_eq_ok_iff {stop : Position} {kind : Char} {gs : List Glyph}
    {c : Char} {n : Nat} (hkind : kind ≠ 'x') : hexEscapeRest stop kind gs = .ok (c, n) ↔
      ∃ digits rest, gs.map Glyph.char = digits ++ rest ∧ n = digits.length ∧
        DigitRule.upTo (if kind = 'u' then 4 else 8) digits rest.head? ∧
        Text.DenotesChar digits c := by
  generalize hlimit : (if kind = 'u' then 4 else 8) = limit
  simp only [hexEscapeRest, hkind, if_false, hlimit]
  constructor
  · intro h
    split at h
    · rename_i found hfound
      cases h
      obtain ⟨rest, hgs, -, hlen, hnext⟩ := (@hexDigits_eq_iff limit (hexDigits limit gs) gs).1 rfl
      obtain ⟨hpos, hdenotes⟩ := Text.hexChar?_eq_some_iff.1 hfound
      exact ⟨_, rest, hgs, rfl, ⟨hpos, hlen, hnext⟩, hdenotes⟩
    · cases h
  · rintro ⟨digits, rest, hgs, rfl, ⟨hpos, hlen, hnext⟩, hdenotes⟩
    have hdigits : hexDigits limit gs = digits :=
      hexDigits_eq_iff.2 ⟨rest, hgs, hdenotes.isHexDigit, hlen, hnext⟩
    rw [hdigits, Text.hexChar?_eq_some_iff.2 ⟨hpos, hdenotes⟩]

theorem isIndent_iff {c : Char} : isIndent c = true ↔ c = ' ' ∨ c = '\t' := by
  simp [isIndent]

/-- The blanks that are skipped after a line end are all that there are. -/
theorem takeWhile_isIndent_eq_iff {cs indent : List Char} :
    cs.takeWhile isIndent = indent ↔ ∃ rest, cs = indent ++ rest ∧
    (∀ c ∈ indent, c = ' ' ∨ c = '\t') ∧
      ∀ c ∈ rest.head?, ¬(c = ' ' ∨ c = '\t') := by
  simp only [← isIndent_iff, Bool.not_eq_true]
  constructor
  · rintro rfl
    refine ⟨cs.dropWhile isIndent, List.takeWhile_append_dropWhile.symm,
      fun c hc => List.mem_takeWhile_imp hc, fun c hc => ?_⟩
    have hhead := List.head?_dropWhile_not isIndent cs
    rw [hc] at hhead
    exact hhead
  · rintro ⟨rest, rfl, hindent, hnext⟩
    rw [List.takeWhile_append_of_pos hindent]
    cases rest with
    | nil => simp
    | cons c rest => simp [hnext c rfl]

/-- The letters of escapes by code point stand for no character themselves. -/
theorem stringEscape_hex {stop : Position} {g : Glyph} {gs : List Glyph} {c : Char} {n : Nat}
    (hg : g.char = 'x' ∨ g.char = 'u' ∨ g.char = 'U')
    (h : hexEscapeRest stop g.char gs = .ok (c, n)) :
    stringEscape stop (g :: gs) = .ok ([c], 1 + n) := by
  have hletter : letterEscape? g.char = none := by
    obtain h | h | h := hg <;> rw [h] <;> rfl
  have hline : g.char ≠ '\n' := by
    obtain h | h | h := hg <;> rw [h] <;> decide
  simp only [stringEscape, hletter, if_neg hline, if_pos hg, h]

theorem escape_of_stringEscape {stop : Position} {gs : List Glyph} {cs : List Char} {n : Nat}
    (h : stringEscape stop gs = .ok (cs, n)) : ∃ text rest, gs.map Glyph.char = text ++ rest ∧
      n = text.length ∧ Escape .upTo text rest.head? cs := by
  cases gs with
  | nil => cases h
  | cons g gs =>
    rw [stringEscape] at h
    split at h
    · rename_i c hletter
      cases h
      exact ⟨[g.char], gs.map Glyph.char, rfl, rfl, .letter (letterEscape?_eq_some_iff.1 hletter)⟩
    · split_ifs at h with hline hhex
      · cases h
        obtain ⟨rest, hgs, hindent, hnext⟩ :=
          takeWhile_isIndent_eq_iff.1 (rfl : (gs.map Glyph.char).takeWhile isIndent = _)
        have hlen : (gs.takeWhile fun g => isIndent g.char).length =
            ((gs.map Glyph.char).takeWhile isIndent).length := by
          rw [← map_char_takeWhile, List.length_map]
        refine ⟨_, rest, ?_, ?_, .lineEnd hindent hnext⟩
        · rw [List.map_cons, hline, List.cons_append, ← hgs]
        · rw [hlen, List.length_cons, Nat.add_comm]
      · split at h
        · rename_i c count hrest
          cases h
          obtain hx | hu | hU := hhex
          · rw [hx, hexEscapeRest_semicolon] at hrest
            obtain ⟨digits, rest, hgs, rfl, hlen, hdenotes⟩ := hrest
            exact ⟨_, rest, by simp [hx, hgs], by simp [Nat.add_comm], .codePoint hlen hdenotes⟩
          · rw [hexEscapeRest_eq_ok_iff (by rw [hu]; decide), if_pos hu] at hrest
            obtain ⟨digits, rest, hgs, rfl, hrule, hdenotes⟩ := hrest
            exact ⟨_, rest, by simp [hu, hgs], by simp [Nat.add_comm], .short hrule hdenotes⟩
          · rw [hexEscapeRest_eq_ok_iff (by rw [hU]; decide), if_neg (by rw [hU]; decide)] at hrest
            obtain ⟨digits, rest, hgs, rfl, hrule, hdenotes⟩ := hrest
            exact ⟨_, rest, by simp [hU, hgs], by simp [Nat.add_comm], .long hrule hdenotes⟩
        · cases h
      · cases h

theorem stringEscape_of_escape (stop : Position) {gs : List Glyph} {text rest cs : List Char}
    (hgs : gs.map Glyph.char = text ++ rest) (h : Escape .upTo text rest.head? cs) :
    stringEscape stop gs = .ok (cs, text.length) := by
  obtain ⟨letter, text, rfl⟩ := List.exists_cons_of_ne_nil h.ne_nil
  obtain ⟨g, gs, rfl, hg, hrest⟩ := List.map_eq_cons_iff.1 hgs
  rw [List.length_cons, Nat.add_comm]
  cases h with
  | letter hletter => simp [stringEscape, hg, letterEscape?_eq_some_iff.2 hletter]
  | lineEnd hindent hnext =>
    have htake := takeWhile_isIndent_eq_iff.2 ⟨rest, hrest, hindent, hnext⟩
    have hlen : (gs.takeWhile fun g => isIndent g.char).length = text.length := by
      rw [← htake, ← map_char_takeWhile, List.length_map]
    have hletter : letterEscape? '\n' = none := rfl
    simp only [stringEscape, hg, hletter, if_true, hlen]
  | codePoint hlen hdenotes =>
    refine stringEscape_hex (Or.inl hg) ?_
    rw [hg, hexEscapeRest_semicolon]
    exact ⟨_, rest, hrest.trans (List.append_assoc ..), by simp, hlen, hdenotes⟩
  | short hrule hdenotes =>
    refine stringEscape_hex (Or.inr (Or.inl hg)) ?_
    rw [hg, hexEscapeRest_eq_ok_iff (by decide)]
    exact ⟨text, rest, hrest, rfl, hrule, hdenotes⟩
  | long hrule hdenotes =>
    refine stringEscape_hex (Or.inr (Or.inr hg)) ?_
    rw [hg, hexEscapeRest_eq_ok_iff (by decide)]
    exact ⟨text, rest, hrest, rfl, hrule, hdenotes⟩

theorem recognizes_stringEscape (stop : Position) :
    Recognizes (stringEscape stop) (Escape .upTo) := by
  refine fun gs cs n => ⟨escape_of_stringEscape, ?_⟩
  rintro ⟨text, rest, hgs, rfl, h⟩
  exact stringEscape_of_escape stop hgs h

/-! ### Reading quoted texts -/

theorem QuotedText.head?_append {quote : Char} {R : List Char → Option Char → List Char → Prop}
    {text content : List Char} (h : QuotedText quote R text content) (rest : List Char) :
    (text ++ rest).head? = text.head? := by
  cases h <;> rfl

section Quoted

variable {quote : Char} {escape : List Glyph → Except ReadError (List Char × Nat)}
  {R : List Char → Option Char → List Char → Prop}

theorem quotedText_of_quotedRest (h : Recognizes escape R) {gs : List Glyph} {cs : List Char}
    {n : Nat} (hread : quotedRest quote escape gs = .ok (cs, n)) :
    ∃ text rest, gs.map Glyph.char = text ++ rest ∧ n = text.length ∧
      QuotedText quote R text cs := by
  fun_induction quotedRest quote escape gs generalizing cs n with
  | case1 => cases hread
  | case2 g gs hclose =>
    cases hread
    exact ⟨[g.char], gs.map Glyph.char, rfl, rfl, hclose ▸ .close⟩
  | case3 => cases hread
  | case4 g gs hne hback first taken hfirst more count hmore ih =>
    cases hread
    obtain ⟨text, rest, hgs, rfl, hR⟩ := (h gs first taken).1 hfirst
    have hdrop : (gs.drop text.length).map Glyph.char = rest := by
      rw [List.map_drop, hgs, List.drop_left]
    obtain ⟨text', rest', hrest, rfl, htext'⟩ := ih hmore
    rw [hdrop] at hrest
    refine ⟨'\\' :: (text ++ text'), rest', ?_, ?_, .escaped ?_ htext'⟩
    · simp [hback, hgs, hrest]
    · simp only [List.length_cons, List.length_append]
      omega
    · rwa [← htext'.head?_append rest', ← hrest]
  | case5 => cases hread
  | case6 g gs hne hback more count hmore ih =>
    cases hread
    obtain ⟨text, rest, hgs, rfl, htext⟩ := ih hmore
    exact ⟨g.char :: text, rest, by simp [hgs], by simp [Nat.add_comm], .plain hne hback htext⟩
  | case7 => cases hread

theorem quotedRest_of_quotedText (hquote : quote ≠ '\\') (h : Recognizes escape R) {gs : List Glyph}
    {text rest cs : List Char} (hgs : gs.map Glyph.char = text ++ rest)
    (htext : QuotedText quote R text cs) : quotedRest quote escape gs = .ok (cs, text.length) := by
  induction htext generalizing gs with
  | close =>
    obtain ⟨g, gs, rfl, hg, -⟩ := List.map_eq_cons_iff.1 hgs
    simp [quotedRest, hg]
  | plain hne hback _ ih =>
    obtain ⟨g, gs, rfl, rfl, hrest⟩ := List.map_eq_cons_iff.1 hgs
    rw [quotedRest]
    simp [hne, hback, ih hrest, Nat.add_comm]
  | @escaped text rest' cs more hescape htext' ih =>
    rw [List.cons_append, List.append_assoc] at hgs
    obtain ⟨g, gs, rfl, hg, hrest⟩ := List.map_eq_cons_iff.1 hgs
    have hfirst : escape gs = .ok (cs, text.length) :=
      (h gs cs _).2 ⟨text, _, hrest, rfl, by rwa [htext'.head?_append rest]⟩
    have hdrop : (gs.drop text.length).map Glyph.char = rest' ++ rest := by
      rw [List.map_drop, hrest, List.drop_left]
    rw [quotedRest]
    simp only [hg, hquote.symm, if_false, if_true, hfirst, ih hdrop]
    simp only [List.length_cons, List.length_append]
    congr 2
    omega

/-- If escapes are recognized, then so are texts up to a closing character. -/
theorem recognizes_quotedRest (hquote : quote ≠ '\\') (h : Recognizes escape R) :
    Recognizes (quotedRest quote escape) fun text _ cs => QuotedText quote R text cs := by
  refine fun gs cs n => ⟨quotedText_of_quotedRest h, ?_⟩
  rintro ⟨text, rest, hgs, rfl, htext⟩
  exact quotedRest_of_quotedText hquote h hgs htext

end Quoted

/-! ### Failures within quoted texts -/

/-- A failure, if the result is one, is the end of the text or a fault in it. -/
def FailsWithin {α : Type} (r : Except ReadError α) : Prop :=
  ∀ e, r = .error e → e = .incomplete ∨ ∃ fault, e = .malformed fault

section Failures

variable {α β : Type}

theorem failsWithin_ok (a : α) : FailsWithin (.ok a) := nofun

theorem failsWithin_incomplete : FailsWithin (.error .incomplete : Except ReadError α) := by
  rintro _ ⟨⟩
  exact Or.inl rfl

theorem failsWithin_malformedAt (fault : Option Position → SyntaxFault) (place : Option Position) :
    FailsWithin (malformedAt fault place : Except ReadError α) := by
  rintro _ ⟨⟩
  exact Or.inr ⟨fault place, rfl⟩

/-- A failure that is passed on is of the same sort. -/
theorem FailsWithin.passOn {e : ReadError} (h : FailsWithin (.error e : Except ReadError α)) :
    FailsWithin (.error e : Except ReadError β) := by
  rintro _ ⟨⟩
  exact h e rfl

theorem failsWithin_hexChar (kind : Char) (digits : List Char) (count : Nat)
    (place : Option Position) :
    FailsWithin (match Text.hexChar? digits with
      | some c => .ok (c, count)
      | none => malformedAt (.badHexEscape kind) place) := by
  cases Text.hexChar? digits with
  | some c => exact failsWithin_ok _
  | none => exact failsWithin_malformedAt _ _

theorem failsWithin_hexEscapeRest (stop : Position) (kind : Char) (gs : List Glyph) :
    FailsWithin (hexEscapeRest stop kind gs) := by
  unfold hexEscapeRest
  generalize hexDigits (if kind = 'u' then 4 else 8) gs = digits
  simp only
  split_ifs
  · split
    · exact failsWithin_incomplete
    · exact failsWithin_hexChar kind digits _ _
    · exact failsWithin_malformedAt _ _
  · exact failsWithin_hexChar kind digits _ _

theorem failsWithin_hexEscape (stop : Position) (kind : Char) (gs : List Glyph) :
    FailsWithin (match hexEscapeRest stop kind gs with
      | .ok (c, count) => .ok ([c], 1 + count)
      | .error e => .error e) := by
  have hrest := failsWithin_hexEscapeRest stop kind gs
  cases h : hexEscapeRest stop kind gs with
  | ok r => exact failsWithin_ok _
  | error e =>
    rw [h] at hrest
    exact hrest.passOn

theorem failsWithin_stringEscape (stop : Position) (gs : List Glyph) :
    FailsWithin (stringEscape stop gs) := by
  cases gs with
  | nil => exact failsWithin_incomplete
  | cons g gs =>
    rw [stringEscape]
    split
    · exact failsWithin_ok _
    · split_ifs
      · exact failsWithin_ok _
      · exact failsWithin_hexEscape stop g.char gs
      · exact failsWithin_malformedAt _ _

theorem failsWithin_symbolEscape (stop : Position) (gs : List Glyph) :
    FailsWithin (symbolEscape stop gs) := by
  cases gs with
  | nil => exact failsWithin_incomplete
  | cons g gs =>
    rw [symbolEscape]
    split_ifs
    · exact failsWithin_ok _
    · exact failsWithin_hexEscape stop g.char gs
    · exact failsWithin_malformedAt _ _

theorem failsWithin_quotedRest {quote : Char}
    {escape : List Glyph → Except ReadError (List Char × Nat)}
    (hescape : ∀ gs, FailsWithin (escape gs)) (gs : List Glyph) :
    FailsWithin (quotedRest quote escape gs) := by
  fun_induction quotedRest quote escape gs with
  | case1 => exact failsWithin_incomplete
  | case2 => exact failsWithin_ok _
  | case3 g gs _ _ e h => exact (h ▸ hescape gs).passOn
  | case4 => exact failsWithin_ok _
  | case5 g gs _ _ cs count _ e h ih => exact (h ▸ ih).passOn
  | case6 => exact failsWithin_ok _
  | case7 g gs _ _ e h ih => exact (h ▸ ih).passOn

end Failures

/-! ### String literals -/

theorem DigitRule.upTo_of_exactly {limit : Nat} {digits : List Char} {next : Option Char}
    (hlimit : 0 < limit) (h : DigitRule.exactly limit digits next) :
    DigitRule.upTo limit digits next := by
  have hlen : digits.length = limit := h
  exact ⟨by omega, by omega, fun hlt => by omega⟩

theorem Escape.upTo_of_exactly {text content : List Char} {next : Option Char}
    (h : Escape .exactly text next content) : Escape .upTo text next content := by
  cases h with
  | letter h => exact .letter h
  | lineEnd h hnext => exact .lineEnd h hnext
  | codePoint hlen h => exact .codePoint hlen h
  | short hrule h => exact .short (DigitRule.upTo_of_exactly (by decide) hrule) h
  | long hrule h => exact .long (DigitRule.upTo_of_exactly (by decide) hrule) h

/-- A text that has all its digits is one that may lack some. -/
theorem StringText.upTo_of_exactly {text content : List Char}
    (h : StringText .exactly text content) :
    StringText .upTo text content := by
  unfold StringText at h ⊢
  induction h with
  | close => exact .close
  | plain hquote hback _ ih => exact .plain hquote hback ih
  | escaped hescape _ ih => exact .escaped hescape.upTo_of_exactly ih

/-- String literals are what the reader takes for them. -/
theorem recognizes_stringRest (stop : Position) :
    Recognizes (stringRest stop) fun text _ cs => StringText .upTo text cs :=
  recognizes_quotedRest (by decide) (recognizes_stringEscape stop)

/-- **String literals.**  After an opening quote the reader takes the texts of the form
`StringText`, in which one digit is enough after `\u` and `\U`, and it gives what their pieces stand
for; these are characters, so no escape stands for anything else.  Texts with all four or eight
digits are among them.  On all other texts the reader fails, because the text ends too early or is
malformed. -/
theorem stringRest_iff_stringText (stop : Position) (gs : List Glyph) :
    (∀ cs n, stringRest stop gs = .ok (cs, n) ↔
      ∃ text rest, gs.map Glyph.char = text ++ rest ∧ n = text.length ∧ StringText .upTo text cs) ∧
    (∀ text rest cs, gs.map Glyph.char = text ++ rest → StringText .exactly text cs →
      stringRest stop gs = .ok (cs, text.length)) ∧
    ((∃ cs n, stringRest stop gs = .ok (cs, n)) ∨ stringRest stop gs = .error .incomplete ∨
      ∃ fault, stringRest stop gs = .error (.malformed fault)) := by
  have hread := recognizes_stringRest stop gs
  have hfails : FailsWithin (stringRest stop gs) :=
    failsWithin_quotedRest (failsWithin_stringEscape stop) gs
  refine ⟨hread, fun text rest cs hgs htext => ?_, ?_⟩
  · exact (hread cs _).2 ⟨text, rest, hgs, rfl, htext.upTo_of_exactly⟩
  · cases h : stringRest stop gs with
    | ok r => exact Or.inl ⟨r.1, r.2, rfl⟩
    | error e =>
      obtain rfl | ⟨fault, rfl⟩ := hfails e h
      · exact Or.inr (Or.inl rfl)
      · exact Or.inr (Or.inr ⟨fault, rfl⟩)

/-- A text with an escape of each kind. -/
theorem stringRest_iff_stringText_escapes :
    let gs := (Source.ofString "a\\n\\\n \\x42;\\u0043\\U00000044\x22").glyphs
    StringText .exactly (gs.map Glyph.char) ['a', '\n', 'B', 'C', 'D'] ∧
      stringRest ⟨1, 1⟩ gs = .ok (['a', '\n', 'B', 'C', 'D'], 28) := by
  intro gs
  have hchars : gs.map Glyph.char =
      'a' :: '\\' :: (['n'] ++ '\\' :: (['\n', ' '] ++ '\\' :: (['x', '4', '2', ';'] ++
        '\\' :: (['u', '0', '0', '4', '3'] ++
          '\\' :: (['U', '0', '0', '0', '0', '0', '0', '4', '4'] ++ ['\x22']))))) := by
          decide +kernel
  have hline : Escape .exactly ['\n', ' '] (some '\\') [] := .lineEnd (by simp) (by simp)
  have hx : Escape .exactly ['x', '4', '2', ';'] (some '\\') ['B'] :=
    @Escape.codePoint _ ['4', '2'] _ _ (by decide) ⟨[4, 2], rfl, rfl⟩
  have hu : Escape .exactly ['u', '0', '0', '4', '3'] (some '\\') ['C'] :=
    .short rfl ⟨[0, 0, 4, 3], rfl, rfl⟩
  have hU : Escape .exactly ['U', '0', '0', '0', '0', '0', '0', '4', '4'] (some '\x22') ['D'] :=
    .long rfl ⟨[0, 0, 0, 0, 0, 0, 4, 4], rfl, rfl⟩
  have htext : StringText .exactly (gs.map Glyph.char) ['a', '\n', 'B', 'C', 'D'] := by
    rw [hchars]
    exact .plain (by decide) (by decide) <| .escaped (.letter (by decide)) <| .escaped hline <|
      .escaped hx <| .escaped hu <| .escaped hU .close
  refine ⟨htext, ?_⟩
  rw [(stringRest_iff_stringText ⟨1, 1⟩ gs).2.1 _ [] _ (List.append_nil _).symm htext, hchars]
  rfl

/-- After `\u` two digits are enough. -/
theorem stringRest_short_run :
    let gs := (Source.ofString "\\u41\x22").glyphs
    (∀ stop, stringRest stop gs = .ok (['A'], 5)) ∧
      ¬∃ text rest cs, gs.map Glyph.char = text ++ rest ∧ StringText .exactly text cs := by
  intro gs
  have hchars : gs.map Glyph.char = '\\' :: (['u', '4', '1'] ++ ['\x22']) := by decide +kernel
  refine ⟨fun stop => ?_, ?_⟩
  · have hescape : Escape .upTo ['u', '4', '1'] (some '\x22') ['A'] :=
      .short ⟨by decide, by decide, fun _ => by rintro c ⟨⟩; rfl⟩ ⟨[4, 1], rfl, rfl⟩
    have htext : StringText .upTo (gs.map Glyph.char) ['A'] := by
      rw [hchars]
      exact .escaped hescape .close
    exact (recognizes_stringRest stop gs _ 5).2
      ⟨_, [], (List.append_nil _).symm, by rw [hchars]; rfl, htext⟩
  · rintro ⟨text, rest, cs, hgs, htext⟩
    rw [hchars] at hgs
    cases htext with
    | close => cases hgs
    | plain _ hback _ =>
      obtain ⟨hc, -⟩ := List.cons.inj hgs
      exact hback hc.symm
    | @escaped text after _ _ hescape _ =>
      obtain ⟨-, hgs⟩ := List.cons.inj hgs
      cases hescape with
      | letter h =>
        obtain ⟨rfl, -⟩ := List.cons.inj hgs
        simp [escapeLetters] at h
      | lineEnd => cases hgs
      | codePoint => cases hgs
      | @short digits _ _ hrule _ =>
        -- there are not as many characters left as the digits that are missing
        have hfour : digits.length = 4 := hrule
        have hlen : 4 = ('u' :: digits ++ after ++ rest).length := congrArg List.length hgs
        simp only [List.length_append, List.length_cons] at hlen
        omega
      | long => cases hgs

end Reader

end Scheme
