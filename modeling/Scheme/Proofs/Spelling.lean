import Mathlib
import Scheme.Datum.Printer
import Scheme.Proofs.NumberText
import Scheme.Proofs.Scan

/-!
# The spelling of tokens

Which tokens a text starts with and where the lexer goes on after them, for texts without faults.

* `Yields`: the tokens and the rest of a text;
* `yields_delimiter`, `yields_word`: a character that stands alone, and a word before its end;
* `yields_string`, `yields_symbol`, `yields_char`, `yields_number`: every atom yields itself.
-/

namespace Scheme

namespace Reader

/-- No glyph is at fault. -/
def Clean (gs : List Glyph) : Prop := ∀ g ∈ gs, g.fault = none

theorem Clean.of_cons {g : Glyph} {gs : List Glyph} (h : Clean (g :: gs)) : Clean gs :=
  fun x hx => h x (List.mem_cons_of_mem _ hx)

theorem Clean.drop {gs : List Glyph} (h : Clean gs) (n : Nat) : Clean (gs.drop n) :=
  fun x hx => h x (List.mem_of_mem_drop hx)

theorem Clean.headFault {gs : List Glyph} (h : Clean gs) : headFault gs = none := by
  cases gs with
  | nil => rfl
  | cons g gs => exact h g (by simp)

theorem Clean.faultWithin {gs : List Glyph} (h : Clean gs) (n : Nat) : faultWithin gs n = none := by
  rw [Reader.faultWithin, List.findSome?_eq_none_iff]
  intro g hg
  exact h g (List.mem_of_mem_tail (List.mem_of_mem_take hg))

/-- From the text `cs` the lexer makes tokens of the kinds `ks`, and it goes on with the text
`rest`. -/
def Yields (cs : List Char) (ks : List TokenKind) (rest : List Char) : Prop :=
  ∀ stop gs, gs.map Glyph.char = cs → Clean gs → ∃ ts gs', ts.map Token.kind = ks ∧
    gs'.map Glyph.char = rest ∧ Clean gs' ∧ scan stop gs = thenTokens ts (scan stop gs')

namespace Yields

theorem refl (cs : List Char) : Yields cs [] cs := by
  intro stop gs hgs hclean
  exact ⟨[], gs, rfl, hgs, hclean, by simp⟩

theorem trans {cs mid rest : List Char} {ks ks' : List TokenKind} (h : Yields cs ks mid)
    (h' : Yields mid ks' rest) : Yields cs (ks ++ ks') rest := by
  intro stop gs hgs hclean
  obtain ⟨ts, gs', hts, hgs', hclean', hscan⟩ := h stop gs hgs hclean
  obtain ⟨ts', gs'', hts', hgs'', hclean'', hscan'⟩ := h' stop gs' hgs' hclean'
  refine ⟨ts ++ ts', gs'', by simp [hts, hts'], hgs'', hclean'', ?_⟩
  rw [hscan, hscan', thenTokens_append]

/-- One token and then others. -/
theorem cons {cs mid rest : List Char} {k : TokenKind} {ks : List TokenKind} (h : Yields cs [k] mid)
    (h' : Yields mid ks rest) : Yields cs (k :: ks) rest := h.trans h'

end Yields

/-- A blank yields nothing. -/
theorem yields_space (rest : List Char) : Yields (' ' :: rest) [] rest := by
  intro stop gs hgs hclean
  obtain ⟨g, gs, rfl, hg, hrest⟩ := List.map_eq_cons_iff.1 hgs
  refine ⟨[], gs, rfl, hrest, hclean.of_cons, ?_⟩
  rw [scan_space stop gs (by rw [hg]; rfl), hclean.of_cons.headFault]
  simp

/-- What a lexical unit means is all that matters where nothing is at fault. -/
theorem scan_of_meaning {stop : Position} {g : Glyph} {gs : List Glyph} {kind : Option TokenKind}
    {count : Nat} (hclean : Clean (g :: gs)) (hspace : isSpace g.char = false)
    (h : meaning stop (some g.position) g.char (wordRest g gs) (gs.drop (wordRest g gs).length) =
      .ok (kind, count)) :
    ∃ ts, ts.map Token.kind = kind.toList ∧
      scan stop (g :: gs) =
        thenTokens ts (scan stop ((gs.drop (wordRest g gs).length).drop count)) := by
  have hlexeme : lexeme stop g gs =
      .ok (kind.map fun k => ⟨k, if count = 0 then some g.position else none⟩,
        (gs.drop (wordRest g gs).length).drop count) := by
    simp only [lexeme, hclean.faultWithin, h, (hclean.of_cons.drop _).faultWithin]
  refine ⟨(kind.map fun k =>
    (⟨k, if count = 0 then some g.position else none⟩ : Token)).toList, ?_, ?_⟩
  · cases kind <;> rfl
  · rw [scan_lexeme stop gs hspace, hlexeme]

theorem yields_delimiter {c : Char} {cs rest : List Char} {kind : TokenKind}
    (hname : isNameChar c = false) (hspace : isSpace c = false)
    (h : ∀ stop place gs, gs.map Glyph.char = cs → ∃ count,
      delimiter stop place c gs = .ok (some kind, count) ∧ (gs.drop count).map Glyph.char = rest) :
    Yields (c :: cs) [kind] rest := by
  intro stop gs hgs hclean
  obtain ⟨g, gs, rfl, rfl, hrest⟩ := List.map_eq_cons_iff.1 hgs
  obtain ⟨count, hdelim, hdrop⟩ := h stop (some g.position) gs hrest
  have hword : wordRest g gs = [] := by simp [wordRest, hname]
  have hmeaning : meaning stop (some g.position) g.char (wordRest g gs)
      (gs.drop (wordRest g gs).length) = .ok (some kind, count) := by
    simp [meaning, hname, hword, hdelim]
  obtain ⟨ts, hts, hscan⟩ := scan_of_meaning hclean hspace hmeaning
  rw [hword] at hscan
  exact ⟨ts, gs.drop count, hts, hdrop, hclean.of_cons.drop count, hscan⟩

theorem isSpace_of_isNameChar {c : Char} (h : isNameChar c = true) : isSpace c = false := by
  refine Bool.eq_false_iff.2 fun hspace => ?_
  have hblank : Text.isBlank c = true := by
    simp only [isSpace, Bool.or_eq_true, decide_eq_true_eq] at hspace
    obtain ((rfl | rfl) | rfl) | hpage := hspace
    · rfl
    · rfl
    · rfl
    · simp [Text.isBlank, hpage]
  simp [isNameChar, hblank] at h

/-- A word ends here. -/
def WordEnds (rest : List Char) : Prop := ∀ c ∈ rest.head?, isNameChar c = false

theorem takeWhile_word {w rest : List Char} {gs : List Glyph} (hw : ∀ c ∈ w, isNameChar c = true)
    (hrest : WordEnds rest) (hgs : gs.map Glyph.char = w ++ rest) :
    (gs.takeWhile fun g => isNameChar g.char).map Glyph.char = w ∧
      (gs.drop (gs.takeWhile fun g => isNameChar g.char).length).map Glyph.char = rest := by
  have htake : (gs.takeWhile fun g => isNameChar g.char).map Glyph.char = w := by
    rw [map_char_takeWhile, hgs, List.takeWhile_append_of_pos hw]
    cases rest with
    | nil => simp
    | cons c rest => simp [hrest c rfl]
  refine ⟨htake, ?_⟩
  have hlen := congrArg List.length htake
  rw [List.length_map] at hlen
  rw [hlen, List.map_drop, hgs, List.drop_left]

theorem yields_word {w cs rest : List Char} {kind : TokenKind} (hne : w ≠ [])
    (hw : ∀ c ∈ w, isNameChar c = true) (hcs : WordEnds cs)
    (h : ∀ place gs, gs.map Glyph.char = cs → ∃ count,
      classify w place gs = .ok (kind, count) ∧ (gs.drop count).map Glyph.char = rest) :
    Yields (w ++ cs) [kind] rest := by
  intro stop gs hgs hclean
  obtain ⟨c, w, rfl⟩ := List.exists_cons_of_ne_nil hne
  obtain ⟨g, gs, rfl, rfl, hrest⟩ := List.map_eq_cons_iff.1 hgs
  have hname := hw g.char (by simp)
  obtain ⟨htake, hdrop⟩ := takeWhile_word (fun x hx => hw x (List.mem_cons_of_mem _ hx)) hcs hrest
  have hword : wordRest g gs = gs.takeWhile fun g => isNameChar g.char := by simp [wordRest, hname]
  obtain ⟨count, hclassify, hcount⟩ := h (some g.position) _ hdrop
  have hmeaning : meaning stop (some g.position) g.char (wordRest g gs)
      (gs.drop (wordRest g gs).length) = .ok (some kind, count) := by
    simp [meaning, hname, hword, htake, hclassify]
  obtain ⟨ts, hts, hscan⟩ := scan_of_meaning hclean (isSpace_of_isNameChar hname) hmeaning
  rw [hword] at hscan
  exact ⟨ts, _, hts, hcount, (hclean.of_cons.drop _).drop count, hscan⟩

/-! ### Marks and parentheses -/

theorem yields_open (rest : List Char) : Yields ('(' :: rest) [.listOpen] rest :=
  yields_delimiter (by decide) (by decide) fun _ _ _ hgs => ⟨0, rfl, hgs⟩

theorem yields_close (rest : List Char) : Yields (')' :: rest) [.close] rest :=
  yields_delimiter (by decide) (by decide) fun _ _ _ hgs => ⟨0, rfl, hgs⟩

theorem peek_eq {gs : List Glyph} {cs : List Char} (h : gs.map Glyph.char = cs) :
    peek gs = cs.head? := by
  rw [← h, List.head?_map]
  rfl

theorem wordEnds_cons {c : Char} {rest : List Char} (h : isNameChar c = false) :
    WordEnds (c :: rest) := by
  rintro x ⟨⟩
  exact h

/-- What a mark of `#` and further characters yields. -/
theorem yields_hash {c : Char} {cs rest : List Char} {kind : TokenKind} (count : Nat)
    (hc : isNameChar c = false) (hrest : (c :: cs).drop count = rest)
    (h : ∀ gs, gs.map Glyph.char = c :: cs → hashToken? gs = some (kind, count)) :
    Yields ('#' :: c :: cs) [kind] rest := by
  refine @yields_word ['#'] (c :: cs) rest kind (by simp) (List.all_eq_true.1 (by decide))
    (wordEnds_cons hc) ?_
  intro place gs hgs
  refine ⟨count, ?_, by rw [List.map_drop, hgs, hrest]⟩
  simp [classify, h gs hgs]

theorem yields_vectorOpen (rest : List Char) : Yields ('#' :: '(' :: rest) [.vectorOpen] rest :=
  yields_hash 1 (by decide) rfl fun gs hgs => by simp [hashToken?, peek_eq hgs]

theorem yields_bytesOpen (rest : List Char) :
    Yields ("#vu8(".toList ++ rest) [.bytesOpen] rest := by
  refine @yields_word "#vu8".toList ('(' :: rest) rest _ (by decide)
    (List.all_eq_true.1 (by decide))
    (wordEnds_cons (by decide)) ?_
  intro place gs hgs
  refine ⟨1, ?_, by rw [List.map_drop, hgs]; rfl⟩
  simp [classify, peek_eq hgs]

theorem peek_tail_eq {gs : List Glyph} {c : Char} {cs : List Char}
    (h : gs.map Glyph.char = c :: cs) :
    peek gs.tail = cs.head? := by
  refine peek_eq ?_
  rw [List.map_tail, h]
  rfl

/-- A quotation mark yields its keyword, unless `@` follows a mark that it would extend. -/
theorem yields_mark {keyword mark : String} {rest : List Char}
    (h : quotationMark? keyword = some mark)
    (hrest : keyword = "unquote" ∨ keyword = "unsyntax" → rest.head? ≠ some '@') :
    Yields (mark.toList ++ rest) [.quotation keyword] rest := by
  have hmem : (keyword, mark) ∈ quotations := by
    obtain ⟨before, after, hsplit, -⟩ := List.lookup_eq_some_iff.1 h
    rw [hsplit]
    simp
  simp only [quotations, List.mem_cons, Prod.mk.injEq, List.not_mem_nil, or_false] at hmem
  obtain ⟨rfl, rfl⟩ | ⟨rfl, rfl⟩ | ⟨rfl, rfl⟩ | ⟨rfl, rfl⟩ | ⟨rfl, rfl⟩ | ⟨rfl, rfl⟩ | ⟨rfl, rfl⟩ |
    ⟨rfl, rfl⟩ := hmem
  · exact yields_delimiter (by decide) (by decide) fun _ _ _ hgs => ⟨0, rfl, hgs⟩
  · exact yields_delimiter (by decide) (by decide) fun _ _ _ hgs => ⟨0, rfl, hgs⟩
  · refine @yields_delimiter ',' rest rest _ (by decide) (by decide) fun stop place gs hgs =>
      ⟨0, ?_, hgs⟩
    simp [delimiter, peek_eq hgs, hrest (Or.inl rfl)]
  · refine @yields_delimiter ',' ('@' :: rest) rest _ (by decide) (by decide) ?_
    intro stop place gs hgs
    refine ⟨1, ?_, by rw [List.map_drop, hgs]; rfl⟩
    simp [delimiter, peek_eq hgs]
  · exact @yields_hash '\x27' rest rest _ 1 (by decide) rfl fun gs hgs => by
      simp [hashToken?, peek_eq hgs]
  · exact @yields_hash '\x60' rest rest _ 1 (by decide) rfl fun gs hgs => by
      simp [hashToken?, peek_eq hgs]
  · refine @yields_hash ',' rest rest _ 1 (by decide) rfl fun gs hgs => ?_
    simp [hashToken?, peek_eq hgs, peek_tail_eq hgs, hrest (Or.inr rfl)]
  · refine @yields_hash ',' ('@' :: rest) rest _ 2 (by decide) rfl fun gs hgs => ?_
    simp [hashToken?, peek_eq hgs, peek_tail_eq hgs]

end Reader

/-! ### Hexadecimal code points -/

namespace Text

theorem hexValue?_digitChar {d : Nat} (h : d < 16) : hexValue? (Nat.digitChar d) = some d := by
  interval_cases d <;> rfl

theorem ofHex?_cons {c : Char} (cs : List Char) :
    ofHex? (c :: cs) = (c :: cs).foldlM (fun n c => (hexValue? c).map (16 * n + ·)) 0 := rfl

/-- The hexadecimal digits of a number denote it. -/
theorem foldlM_toDigits (n : Nat) :
    (Nat.toDigits 16 n).foldlM (fun n c => (hexValue? c).map (16 * n + ·)) 0 = some n := by
  induction n using Nat.strongRecOn with
  | _ n ih =>
    by_cases h : n < 16
    · rw [Nat.toDigits_of_lt_base h]
      simp [hexValue?_digitChar h]
    · rw [Nat.toDigits_of_base_le (by decide) (by omega), List.foldlM_append,
        ih (n / 16) (by omega)]
      have hlt : n % 16 < 16 := Nat.mod_lt n (by decide)
      simp only [Option.bind_eq_bind, Option.bind_some, List.foldlM_cons, List.foldlM_nil,
        hexValue?_digitChar hlt, Option.map_some, Option.pure_def, Nat.div_add_mod]

theorem ofHex?_hex (n : Nat) : ofHex? (hex n).toList = some n := by
  rw [hex, String.toList_ofList]
  obtain ⟨c, cs, hcs⟩ := List.exists_cons_of_ne_nil (@Nat.toDigits_ne_nil n 16)
  rw [hcs, ofHex?_cons, ← hcs, foldlM_toDigits]

theorem isHexDigit_toDigits (n : Nat) : ∀ c ∈ Nat.toDigits 16 n, isHexDigit c = true := by
  induction n using Nat.strongRecOn with
  | _ n ih =>
    by_cases h : n < 16
    · rw [Nat.toDigits_of_lt_base h]
      simp [isHexDigit, hexValue?_digitChar h]
    · rw [Nat.toDigits_of_base_le (by decide) (by omega)]
      have hlt : n % 16 < 16 := Nat.mod_lt n (by decide)
      refine List.forall_mem_append.2 ⟨ih (n / 16) (by omega), ?_⟩
      simp [isHexDigit, hexValue?_digitChar hlt]

theorem isHexDigit_hex (n : Nat) : ∀ c ∈ (hex n).toList, isHexDigit c = true := by
  rw [hex, String.toList_ofList]
  exact isHexDigit_toDigits n

theorem length_hex_le (c : Char) : (hex c.toNat).toList.length ≤ 6 := by
  rw [hex, String.toList_ofList, Nat.length_toDigits_le_iff (by decide) (by decide)]
  have hlt : c.toNat < 0x110000 := by
    have hv := c.valid
    simp only [UInt32.isValidChar, Nat.isValidChar] at hv
    show c.val.toNat < _
    omega
  omega

/-- A word is narrowed to its remainder of 32 bits with a sign. -/
theorem toInt_codePoint (n : Nat) : (codePoint (.ofNat n)).toInt = (n : Int).bmod (2 ^ 32) := by
  have hword : (UInt64.ofNat n).toUInt32.toNat = n % 2 ^ 32 := by
    rw [UInt64.toNat_toUInt32, UInt64.toNat_ofNat', Nat.mod_mod_of_dvd _ (by decide)]
  show (UInt64.ofNat n).toUInt32.toBitVec.toInt = _
  rw [BitVec.toInt_eq_toNat_bmod]
  show ((UInt64.ofNat n).toUInt32.toNat : Int).bmod (2 ^ 32) = _
  rw [hword, Int.natCast_mod]
  exact Int.emod_bmod (n : Int) (2 ^ 32)

/-- The Unicode scalar values among the numbers of 32 bits: a number above them is narrowed to a
negative one or to one that is none either. -/
theorem isScalar_codePoint_iff {n : Nat} (h : n < 2 ^ 32) :
    isScalar (codePoint (.ofNat n)) = true ↔ n.isValidChar := by
  have hint := toInt_codePoint n
  have hbmod : (n : Int).bmod (2 ^ 32) = if n < 2 ^ 31 then (n : Int) else n - 2 ^ 32 := by
    rw [Int.bmod_def]
    split_ifs <;> omega
  simp only [isScalar, Bool.or_eq_true, Bool.and_eq_true, decide_eq_true_eq, Int32.le_iff_toInt_le,
    Int32.lt_iff_toInt_lt, hint, hbmod, Nat.isValidChar]
  have h0 : (0 : Int32).toInt = 0 := rfl
  have h1 : (0xD800 : Int32).toInt = 0xD800 := rfl
  have h2 : (0xDFFF : Int32).toInt = 0xDFFF := rfl
  have h3 : (0x10FFFF : Int32).toInt = 0x10FFFF := rfl
  rw [h0, h1, h2, h3]
  split_ifs <;> omega

theorem scalar?_codePoint {n : Nat} (h : n < 2 ^ 32) (c : Char) :
    scalar? (codePoint (.ofNat n)) = some c ↔ n = c.toNat := by
  unfold scalar?
  by_cases hn : n.isValidChar
  · have hsmall : n < 2 ^ 31 := by
      unfold Nat.isValidChar at hn
      omega
    have hclamp : (codePoint (.ofNat n)).toNatClampNeg = n := by
      rw [← Int32.toNat_toInt, toInt_codePoint, Int.bmod_eq_of_le (by omega) (by omega),
        Int.toNat_natCast]
    rw [if_pos ((isScalar_codePoint_iff h).2 hn), hclamp, Option.some.injEq]
    constructor
    · rintro rfl
      rw [Char.toNat_ofNat, if_pos hn]
    · rintro rfl
      exact Char.ofNat_toNat c
  · rw [if_neg (mt (isScalar_codePoint_iff h).1 hn)]
    refine iff_of_false nofun ?_
    rintro rfl
    exact hn c.valid

/-- **No number outside the Unicode scalar values is taken for a character**, although words are
narrowed: hexadecimal digits denote the character whose code point is their number. -/
theorem hexChar?_eq_some_iff_ofHex? {digits : List Char} {c : Char} :
    hexChar? digits = some c ↔ ofHex? digits = some c.toNat := by
  unfold hexChar? hexWord?
  cases hn : ofHex? digits with
  | none => exact iff_of_false nofun nofun
  | some n =>
    rw [Option.bind_some, Option.some.injEq]
    by_cases hle : n ≤ 0xFFFFFFFF
    · rw [if_pos hle, Option.bind_some, scalar?_codePoint (by omega)]
    · rw [if_neg hle]
      refine iff_of_false nofun ?_
      rintro rfl
      have hval := c.val.toNat_lt
      exact hle (Nat.le_of_lt_succ hval)

theorem hexChar?_hex (c : Char) : hexChar? (hex c.toNat).toList = some c :=
  hexChar?_eq_some_iff_ofHex?.2 (ofHex?_hex c.toNat)

theorem isNameChar_of_isHexDigit {c : Char} (h : isHexDigit c = true) : isNameChar c = true := by
  unfold isHexDigit hexValue? at h
  split_ifs at h with hdigit hlower hupper
  · exact @of_char_range isNameChar '0' '9' c (by decide) hdigit.1 hdigit.2
  · exact @of_char_range isNameChar 'a' 'f' c (by decide) hlower.1 hlower.2
  · exact @of_char_range isNameChar 'A' 'F' c (by decide) hupper.1 hupper.2
  · cases h

end Text

namespace Reader

theorem hexDigits_cons_succ (limit : Nat) (g : Glyph) (gs : List Glyph) :
    hexDigits (limit + 1) (g :: gs) =
      if Text.isHexDigit g.char = true then g.char :: hexDigits limit gs else [] := by
  simp [hexDigits, List.takeWhile_cons]

/-- After the digits of an escape that could have more of them comes something else. -/
theorem exists_append_hexDigits (limit : Nat) (gs : List Glyph) :
    ∃ rest, gs.map Glyph.char = hexDigits limit gs ++ rest ∧
      ((hexDigits limit gs).length < limit → ∀ c ∈ rest.head?, Text.isHexDigit c = false) := by
  induction limit generalizing gs with
  | zero => exact ⟨gs.map Glyph.char, by simp [hexDigits]⟩
  | succ limit ih =>
    cases gs with
    | nil => exact ⟨[], by simp [hexDigits]⟩
    | cons g gs =>
      rw [hexDigits_cons_succ]
      split_ifs with hhex
      · obtain ⟨rest, hgs, hnext⟩ := ih gs
        exact ⟨rest, by simp [hgs], by simpa using hnext⟩
      · exact ⟨g.char :: gs.map Glyph.char, by simp, by simpa using hhex⟩

/-- The digits of an escape are the longest run of hexadecimal digits within its limit. -/
theorem hexDigits_eq_iff {limit : Nat} {digits : List Char} {gs : List Glyph} :
    hexDigits limit gs = digits ↔ ∃ rest, gs.map Glyph.char = digits ++ rest ∧
      (∀ c ∈ digits, Text.isHexDigit c = true) ∧ digits.length ≤ limit ∧
      (digits.length < limit → ∀ c ∈ rest.head?, Text.isHexDigit c = false) := by
  constructor
  · rintro rfl
    obtain ⟨rest, hgs, hnext⟩ := exists_append_hexDigits limit gs
    refine ⟨rest, hgs, fun c hc => List.mem_takeWhile_imp hc, ?_, hnext⟩
    refine le_trans (List.takeWhile_prefix _).length_le ?_
    simp
  · rintro ⟨rest, hgs, hall, hlen, hnext⟩
    rw [hexDigits, List.map_take, hgs]
    obtain ⟨k, rfl⟩ := Nat.exists_eq_add_of_le hlen
    rw [List.take_length_add_append, List.takeWhile_append_of_pos hall]
    -- of what follows nothing is taken: the limit is reached, or no digit comes next
    cases k with
    | zero => simp
    | succ k =>
      cases rest with
      | nil => simp
      | cons c rest => simp [hnext (by omega) c rfl]

theorem hexEscapeRest_hex (stop : Position) (c : Char) {rest : List Char} {gs : List Glyph}
    (hgs : gs.map Glyph.char = (Text.hex c.toNat).toList ++ ';' :: rest) :
    hexEscapeRest stop 'x' gs = .ok (c, (Text.hex c.toNat).toList.length + 1) := by
  have hlen := Text.length_hex_le c
  have hdigits : hexDigits 8 gs = (Text.hex c.toNat).toList :=
    hexDigits_eq_iff.2 ⟨_, hgs, Text.isHexDigit_hex c.toNat, by omega, fun _ => by rintro x ⟨⟩; rfl⟩
  have hrest : (gs.drop (Text.hex c.toNat).toList.length).map Glyph.char = ';' :: rest := by
    rw [List.map_drop, hgs, List.drop_left]
  simp [hexEscapeRest, hdigits, peek_eq hrest, Text.hexChar?_hex]

/-! ### Texts between quotes and bars -/

/-- The ways to write a character of a quoted text: as it stands, or by an escape that is read
back. -/
def Escaped (quote : Char) (escape : List Glyph → Except ReadError (List Char × Nat)) (c : Char)
    (text : List Char) : Prop :=
  (text = [c] ∧ c ≠ quote ∧ c ≠ '\\') ∨
    ∃ body, text = '\\' :: body ∧ ∀ gs rest, gs.map Glyph.char = body ++ rest →
      escape gs = .ok ([c], body.length)

/-- A quoted text is read back if each of its characters is. -/
theorem quotedRest_flatMap {quote : Char} {escape : List Glyph → Except ReadError (List Char × Nat)}
    {spell : Char → List Char} (hquote : quote ≠ '\\')
    (hspell : ∀ c, Escaped quote escape c (spell c)) (content : List Char) {rest : List Char}
    {gs : List Glyph} (hgs : gs.map Glyph.char = content.flatMap spell ++ quote :: rest) :
    ∃ count, quotedRest quote escape gs = .ok (content, count) ∧
      (gs.drop count).map Glyph.char = rest := by
  induction content generalizing gs with
  | nil =>
    obtain ⟨g, gs, rfl, rfl, hrest⟩ := List.map_eq_cons_iff.1 hgs
    exact ⟨1, by simp [quotedRest], hrest⟩
  | cons c content ih =>
    rw [List.flatMap_cons, List.append_assoc] at hgs
    obtain ⟨htext, hne, hback⟩ | ⟨body, htext, hescape⟩ := hspell c
    · -- the character stands for itself
      rw [htext, List.singleton_append] at hgs
      obtain ⟨g, gs, rfl, rfl, hrest⟩ := List.map_eq_cons_iff.1 hgs
      obtain ⟨count, hread, hdrop⟩ := ih hrest
      refine ⟨1 + count, ?_, by rwa [Nat.add_comm, List.drop_succ_cons]⟩
      rw [quotedRest]
      simp [hne, hback, hread]
    · -- the escape after the backslash gives it back
      rw [htext, List.cons_append] at hgs
      obtain ⟨g, gs, rfl, hg, hrest⟩ := List.map_eq_cons_iff.1 hgs
      have hafter : (gs.drop body.length).map Glyph.char = content.flatMap spell ++ quote ::
          rest := by
        rw [List.map_drop, hrest, List.drop_left]
      obtain ⟨count, hread, hdrop⟩ := ih hafter
      refine ⟨1 + body.length + count, ?_, ?_⟩
      · rw [quotedRest]
        simp [hg, hquote.symm, hescape gs _ hrest, hread]
      · rw [Nat.add_assoc, Nat.add_comm 1, List.drop_succ_cons, ← List.drop_drop]
        exact hdrop

theorem letterEscape?_layoutLetter {c letter : Char} (h : Text.layoutLetter? c = some letter) :
    letterEscape? letter = some c := by
  have hc : c = Char.ofNat c.toNat := (Char.ofNat_toNat c).symm
  unfold Text.layoutLetter? at h
  split at h
  case h_8 => cases h
  all_goals
    rename_i hn
    cases h
    rw [hc, hn]
    rfl

/-- A hexadecimal escape, behind its backslash. -/
theorem hexEscape_eq (c : Char) (rest : List Char) :
    'x' :: (Text.hex c.toNat).toList ++ [';'] ++ rest =
      'x' :: ((Text.hex c.toNat).toList ++ ';' :: rest) := by
  simp

theorem escaped_stringChar (stop : Position) (c : Char) :
    Escaped Text.doubleQuote (stringEscape stop) c (stringChar c) := by
  unfold stringChar
  by_cases hquote : c = Text.doubleQuote ∨ c = '\\'
  · rw [if_pos hquote]
    refine Or.inr ⟨[c], rfl, fun gs rest hgs => ?_⟩
    obtain ⟨g, gs, rfl, rfl, -⟩ := List.map_eq_cons_iff.1 hgs
    have hletter : letterEscape? g.char = some g.char := by
      obtain h | h := hquote <;> rw [h] <;> rfl
    simp [stringEscape, hletter]
  · rw [if_neg hquote]
    cases hletter : Text.layoutLetter? c with
    | some letter =>
      refine Or.inr ⟨[letter], rfl, fun gs rest hgs => ?_⟩
      obtain ⟨g, gs, rfl, rfl, -⟩ := List.map_eq_cons_iff.1 hgs
      simp [stringEscape, letterEscape?_layoutLetter hletter]
    | none =>
      simp only
      split_ifs with hprint
      · exact Or.inl ⟨rfl, not_or.1 hquote⟩
      · refine Or.inr ⟨'x' :: (Text.hex c.toNat).toList ++ [';'], rfl, fun gs rest hgs => ?_⟩
        rw [hexEscape_eq] at hgs
        obtain ⟨g, gs, rfl, hg, hrest⟩ := List.map_eq_cons_iff.1 hgs
        have hx : letterEscape? 'x' = none := rfl
        simp [stringEscape, hg, hx, hexEscapeRest_hex stop c hrest, Nat.add_comm]

theorem escaped_barChar (stop : Position) (c : Char) :
    Escaped '|' (symbolEscape stop) c (barChar c) := by
  unfold barChar
  split_ifs with hquote hprint
  · refine Or.inr ⟨[c], rfl, fun gs rest hgs => ?_⟩
    obtain ⟨g, gs, rfl, rfl, -⟩ := List.map_eq_cons_iff.1 hgs
    simp [symbolEscape, hquote]
  · exact Or.inl ⟨rfl, not_or.1 hquote⟩
  · refine Or.inr ⟨'x' :: (Text.hex c.toNat).toList ++ [';'], rfl, fun gs rest hgs => ?_⟩
    rw [hexEscape_eq] at hgs
    obtain ⟨g, gs, rfl, hg, hrest⟩ := List.map_eq_cons_iff.1 hgs
    simp [symbolEscape, hg, hexEscapeRest_hex stop c hrest, Nat.add_comm]

/-- A string literal yields its string. -/
theorem yields_string (s : String) (rest : List Char) :
    Yields (stringLiteral s.toList ++ rest) [.atom (.string s)] rest := by
  have htext : stringLiteral s.toList ++ rest =
      Text.doubleQuote :: (s.toList.flatMap stringChar ++ Text.doubleQuote :: rest) := by
    simp [stringLiteral]
  rw [htext]
  refine yields_delimiter (by decide) (by decide) fun stop place gs hgs => ?_
  obtain ⟨count, hread, hdrop⟩ :=
    quotedRest_flatMap (by decide) (escaped_stringChar stop) s.toList hgs
  refine ⟨count, ?_, hdrop⟩
  have hstring : stringRest stop gs = .ok (s.toList, count) := hread
  simp [delimiter, Text.doubleQuote, hstring]

/-- A symbol between bars yields its symbol. -/
theorem yields_barred (name : String) (rest : List Char) :
    Yields (barred name.toList ++ rest) [.atom (.symbol name)] rest := by
  have htext :
      barred name.toList ++ rest = '|' :: (name.toList.flatMap barChar ++ '|' :: rest) := by
    simp [barred]
  rw [htext]
  refine yields_delimiter (by decide) (by decide) fun stop place gs hgs => ?_
  obtain ⟨count, hread, hdrop⟩ :=
    quotedRest_flatMap (by decide) (escaped_barChar stop) name.toList hgs
  refine ⟨count, ?_, hdrop⟩
  have hsymbol : symbolRest stop gs = .ok (name.toList, count) := hread
  simp [delimiter, hsymbol]

/-! ### Words -/

/-- A word that is no mark means what it means as an atom. -/
theorem classify_atom {w : List Char} {kind : TokenKind} (place : Option Position) (gs : List Glyph)
    (hdot : w ≠ ['.']) (hhead : w.head? ≠ some '#') (h : atomOfWord w place = .ok kind) :
    classify w place gs = .ok (kind, 0) := by
  have hne (cs : List Char) : w ≠ '#' :: cs := by
    rintro rfl
    exact hhead rfl
  simp [classify, hdot, h, hne]

theorem yields_atom {w : List Char} {kind : TokenKind} {rest : List Char} (hne : w ≠ [])
    (hw : ∀ c ∈ w, isNameChar c = true) (hdot : w ≠ ['.']) (hhead : w.head? ≠ some '#')
    (hrest : WordEnds rest) (h : ∀ place, atomOfWord w place = .ok kind) :
    Yields (w ++ rest) [kind] rest :=
  yields_word hne hw hrest fun place gs hgs =>
    ⟨0, classify_atom place gs hdot hhead (h place), hgs⟩

/-- A symbol yields itself. -/
theorem yields_symbol (name : String) {rest : List Char} (hrest : WordEnds rest) :
    Yields (symbolText .written name.toList ++ rest) [.atom (.symbol name)] rest := by
  unfold symbolText
  split_ifs with hbars
  · exact yields_barred name rest
  · simp only [needsBars, Bool.or_eq_true, not_or, true_and, Bool.not_eq_true', decide_eq_true_eq,
      Bool.not_eq_true, List.isEmpty_eq_false_iff, Option.isSome_eq_false_iff,
      Option.isNone_iff_eq_none, Bool.not_eq_false, List.all_eq_true] at hbars
    obtain ⟨⟨⟨⟨hne, hdot⟩, hhead⟩, hall⟩, hnumber⟩ := hbars
    refine yields_atom hne hall hdot hhead hrest fun place => ?_
    unfold atomOfWord
    split
    · rename_i hword
      rw [hword] at hhead
      exact absurd rfl hhead
    · rw [hnumber]
      simp [hhead]

/-- A number yields a number of the same exactness and value. -/
theorem yields_number {n : Number} (h : n.isNaNFree = true) :
    ∃ m, n.same m = true ∧ ∀ rest, WordEnds rest → Yields (n.chars ++ rest)
      [.atom (.number m)] rest := by
  obtain ⟨m, hparse, -, hsame⟩ := Number.parseChars_chars h
  obtain ⟨hall, hstarts⟩ := Number.nameChar_chars h
  have hhead : n.chars.head? ≠ some '#' := hstarts.ne rfl rfl
  refine ⟨m, hsame, fun rest hrest => ?_⟩
  have hne : n.chars ≠ [] := by
    intro hnil
    rw [hnil] at hparse
    cases hparse
  have hdot : n.chars ≠ ['.'] := by
    intro hdot
    rw [hdot] at hparse
    cases hparse
  refine yields_atom hne hall hdot hhead hrest fun place => ?_
  unfold atomOfWord
  split
  · rename_i hword
    rw [hword] at hhead
    exact absurd rfl hhead
  · rw [hparse]

/-- Digits yield an exact integer. -/
theorem yields_digits {digits rest : List Char} (h : isDigits digits = true)
    (hrest : WordEnds rest) :
    Yields (digits ++ rest) [.atom (.number (.ofInt (digitsValue 10 digits)))] rest := by
  have hparse := Number.parseChars_digits h
  obtain ⟨hne, hall⟩ := isDigits_eq_true_iff.1 h
  have hhead : digits.head? ≠ some '#' := by
    intro hc
    exact absurd (hall '#' (List.mem_of_head? hc)) (by decide)
  have hdot : digits ≠ ['.'] := by
    rintro rfl
    cases h
  refine yields_atom hne (fun c hc => isNameChar_of_isDigit (hall c hc)) hdot hhead hrest
    fun place => ?_
  unfold atomOfWord
  split
  · exact absurd rfl hhead
  · rw [hparse]

theorem yields_boolean (b : Bool) {rest : List Char} (hrest : WordEnds rest) :
    Yields ((if b then ['#', 't'] else ['#', 'f']) ++ rest) [.atom (.boolean b)] rest := by
  have hword : (if b then ['#', 't'] else ['#', 'f']).all isNameChar = true := by cases b <;> decide
  refine yields_word (by cases b <;> simp) (List.all_eq_true.1 hword) hrest fun place gs hgs =>
    ⟨0, ?_, hgs⟩
  cases b <;> simp [classify]

/-- The word of a named character. -/
theorem classify_char {name : List Char} {c : Char} (hname : namedChar? name = some c)
    (hne : name ≠ []) (place : Option Position) (gs : List Glyph) :
    classify ('#' :: '\\' :: name) place gs = .ok (.atom (.char c), 0) := by
  simp [classify, hne, atomOfWord, hname]

/-- No name of a character starts with `x`, so that a code point is read as such. -/
theorem namedChar?_hex (c : Char) : namedChar? ('x' :: (Text.hex c.toNat).toList) = some c := by
  have hnone (cs : List Char) : characterNamed? (String.ofList ('x' :: cs)) = none := by
    have hall : ∀ p ∈ characterNames, p.2.toList.head? ≠ some 'x' := by decide
    rw [characterNamed?, Option.map_eq_none_iff, List.find?_eq_none]
    intro p hp heq
    have hp2 := hall p hp
    rw [beq_iff_eq.1 heq, String.toList_ofList] at hp2
    exact hp2 rfl
  have hvalue := Text.hexChar?_hex c
  match hdigits : (Text.hex c.toNat).toList with
  | [] =>
    rw [hdigits] at hvalue
    cases hvalue
  | d :: ds =>
    rw [hdigits] at hvalue
    simp only [namedChar?, hnone, hvalue]

/-- A character literal yields its character. -/
theorem yields_char (c : Char) {rest : List Char} (hrest : WordEnds rest) :
    Yields (charLiteral c ++ rest) [.atom (.char c)] rest := by
  -- a character that is spelled by a word takes the whole word
  have hword {name : List Char} (hname : namedChar? name = some c) (hne : name ≠ [])
      (hall : ∀ x ∈ name, isNameChar x = true) :
      Yields ('#' :: '\\' :: name ++ rest) [.atom (.char c)] rest := by
    refine yields_word (by simp) (fun x hx => ?_) hrest fun place gs hgs =>
      ⟨0, classify_char hname hne place gs, hgs⟩
    simp only [List.mem_cons] at hx
    obtain rfl | rfl | hx := hx
    · decide
    · decide
    · exact hall x hx
  unfold charLiteral
  cases hname : characterName? c with
  | some name =>
    have hmem : (c, name) ∈ characterNames := by
      obtain ⟨before, after, hsplit, -⟩ := List.lookup_eq_some_iff.1 hname
      rw [hsplit]
      simp
    have hall : ∀ p ∈ characterNames, namedChar? p.2.toList = some p.1 ∧ p.2.toList ≠ [] ∧
        p.2.toList.all isNameChar = true := by decide
    obtain ⟨h₁, h₂, h₃⟩ := hall _ hmem
    exact hword h₁ h₂ (List.all_eq_true.1 h₃)
  | none =>
    simp only
    split_ifs with hprint
    · by_cases hc : isNameChar c = true
      · exact hword rfl (by simp) (by simpa using hc)
      · -- the character ends the word `#\` and is taken on its own
        refine @yields_word ['#', '\\'] (c :: rest) rest _ (by simp)
          (List.all_eq_true.1 (by decide))
          (wordEnds_cons (by simpa using hc)) ?_
        intro place gs hgs
        obtain ⟨g, gs, rfl, rfl, hafter⟩ := List.map_eq_cons_iff.1 hgs
        exact ⟨1, by simp [classify], hafter⟩
    · refine hword (namedChar?_hex c) (by simp) fun x hx => ?_
      obtain rfl | hx := List.mem_cons.1 hx
      · decide
      · exact Text.isNameChar_of_isHexDigit (Text.isHexDigit_hex _ x hx)

end Reader

end Scheme
