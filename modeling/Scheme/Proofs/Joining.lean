import Mathlib
import Scheme.Proofs.Escapes
import Scheme.Proofs.Session

/-!
# Texts joined by a line end

A text that reads well leaves nothing open: behind a line end, a second text reads as it does alone,
and fails as it does alone.  A text that starts a good one is at worst incomplete, so that a reader
that takes line after line, and waits on incomplete texts only, refuses no good text.

* `Flaw`, `ReadError.flaw?`: the two ways in which a text fails to read;
* `flawed_readAll`: reading fails in no other way;
* `content_ofBytes`: only the three bytes of a byte-order mark are skipped in front of a text;
* `readAll_joined`, `readAll_multiline`: the main results.
-/

namespace Scheme.Reader

open Shell (Line)

/-! ### Ways to fail -/

/-- The ways in which a text fails to read. -/
inductive Flaw where
  /-- It ends inside a datum. -/
  | incomplete
  /-- It is malformed. -/
  | malformed
  deriving DecidableEq

/-- The way in which a text fails to read; there is none where it holds no more data. -/
def ReadError.flaw? : ReadError → Option Flaw
  | .endOfInput => none
  | .incomplete => some .incomplete
  | .incompleteChar => some .incomplete
  | .malformed _ => some .malformed

/-- A failure, if the result is one, is a flaw of the text. -/
def Flawed {α : Type} (r : Except ReadError α) : Prop := ∀ e, r = .error e → e ≠ .endOfInput

section Flaws

variable {α β : Type}

theorem flawed_ok (a : α) : Flawed (.ok a) := nofun

theorem flawed_error {e : ReadError} (h : e ≠ .endOfInput) :
    Flawed (.error e : Except ReadError α) := by
  rintro _ ⟨⟩
  exact h

theorem flawed_malformedAt (fault : Option Position → SyntaxFault) (place : Option Position) :
    Flawed (malformedAt fault place : Except ReadError α) := flawed_error nofun

/-- A failure that is passed on is as flawed as it was. -/
theorem Flawed.passOn {e : ReadError} (h : Flawed (.error e : Except ReadError α)) :
    Flawed (.error e : Except ReadError β) := flawed_error (h e rfl)

theorem FailsWithin.flawed {r : Except ReadError α} (h : FailsWithin r) : Flawed r := by
  intro e he
  obtain rfl | ⟨fault, rfl⟩ := h e he <;> nofun

theorem flawed_atomOfWord (word : List Char) (place : Option Position) :
    Flawed (atomOfWord word place) := by
  unfold atomOfWord
  split
  · split
    · exact flawed_ok _
    · exact flawed_malformedAt _ _
  · split
    · exact flawed_ok _
    · split_ifs
      · exact flawed_malformedAt _ _
      · exact flawed_ok _

theorem flawed_atom (word : List Char) (place : Option Position) :
    Flawed (match atomOfWord word place with
      | .ok kind => (.ok (kind, 0) : Except ReadError (TokenKind × Nat))
      | .error e => .error e) := by
  have hword := flawed_atomOfWord word place
  cases h : atomOfWord word place with
  | ok kind => exact flawed_ok _
  | error e =>
    rw [h] at hword
    exact hword.passOn

theorem flawed_classify (word : List Char) (place : Option Position) (gs : List Glyph) :
    Flawed (classify word place gs) := by
  unfold classify
  simp only
  split_ifs
  · exact flawed_ok _
  · exact flawed_ok _
  · exact flawed_ok _
  · split
    · exact flawed_ok _
    · exact flawed_atom word place
  · exact flawed_ok _
  · split
    · exact flawed_error (by simp)
    · exact flawed_ok _
  · exact flawed_atom word place

theorem flawed_delimiter (stop : Position) (place : Option Position) (c : Char) (gs : List Glyph) :
    Flawed (delimiter stop place c gs) := by
  -- only strings and symbols between bars can fail, apart from characters that start nothing
  unfold delimiter
  split
  case h_7 => split_ifs <;> exact flawed_ok _
  case h_8 =>
    split
    · exact flawed_ok _
    · rename_i e h
      exact flawed_error ((failsWithin_quotedRest (failsWithin_stringEscape stop) gs).flawed e h)
  case h_9 =>
    split
    · exact flawed_ok _
    · rename_i e h
      exact flawed_error ((failsWithin_quotedRest (failsWithin_symbolEscape stop) gs).flawed e h)
  case h_10 => exact flawed_malformedAt _ _
  all_goals exact flawed_ok _

theorem flawed_lexeme (stop : Position) (g : Glyph) (gs : List Glyph) :
    Flawed (lexeme stop g gs) := by
  have hmeaning (place : Option Position) (more after : List Glyph) :
      Flawed (meaning stop place g.char more after) := by
    unfold meaning
    split_ifs
    · split
      · exact flawed_ok _
      · rename_i e h
        exact flawed_error (flawed_classify _ _ _ e h)
    · exact flawed_delimiter _ _ _ _
  unfold lexeme
  simp only
  split
  · exact flawed_malformedAt _ _
  · split
    · rename_i e h
      exact flawed_error (hmeaning _ _ _ e h)
    · split
      · exact flawed_malformedAt _ _
      · exact flawed_ok _

theorem flawed_tokensFrom (stop : Position) (fuel : Nat) (gs : List Glyph) :
    Flawed (tokensFrom stop fuel gs) := by
  induction fuel generalizing gs with
  | zero => exact flawed_ok _
  | succ fuel ih =>
    rw [tokensFrom]
    split
    · exact flawed_malformedAt _ _
    · split
      · exact flawed_ok _
      · split
        · rename_i e h
          exact flawed_error (flawed_lexeme _ _ _ e h)
        · split
          · exact flawed_ok _
          · rename_i e h
            exact flawed_error (ih _ e h)

theorem flawed_readAllFrom (fuel : Nat) (ts : List Token) : Flawed (readAllFrom fuel ts) := by
  induction fuel generalizing ts with
  | zero => exact flawed_ok _
  | succ fuel ih =>
    rw [readAllFrom]
    split
    · exact flawed_ok _
    · rename_i e rest hne _
      exact flawed_error hne
    · split
      · exact flawed_ok _
      · rename_i e h
        exact flawed_error (ih _ e h)

/-- **Reading a text fails by a flaw of the text only.** -/
theorem flawed_readAll (source : Source) : Flawed (readAll source) := by
  unfold readAll tokens
  split
  · exact flawed_readAllFrom _ _
  · rename_i e h
    split at h
    · cases h
      exact flawed_error nofun
    · exact flawed_error (flawed_tokensFrom _ _ _ e h)

theorem flaw?_eq {e e' : ReadError} (he : e ≠ .endOfInput) (he' : e' ≠ .endOfInput)
    (h : e'.isIncomplete = e.isIncomplete) :
    ∃ flaw, e.flaw? = some flaw ∧ e'.flaw? = some flaw := by
  cases e <;> cases e' <;> simp_all [ReadError.flaw?, ReadError.isIncomplete]

end Flaws

/-! ### Byte-order marks -/

theorem continuation_succ {high n m : Nat} {bytes : List UInt8}
    (h : Script.continuation high (n + 1) bytes = some m) :
    ∃ b rest, bytes = b :: rest ∧ 128 ≤ b.toNat ∧ b.toNat < 192 ∧
      Script.continuation (high * 64 + (b.toNat - 128)) n rest = some m := by
  cases bytes with
  | nil => cases h
  | cons b rest =>
    rw [Script.continuation] at h
    split_ifs at h with hb
    exact ⟨b, rest, rfl, UInt8.le_iff_toNat_le.1 hb.1, UInt8.lt_iff_toNat_lt.1 hb.2, h⟩

theorem continuation_zero {high m : Nat} {bytes : List UInt8}
    (h : Script.continuation high 0 bytes = some m) : m = high := by
  rw [Script.continuation] at h
  exact (Option.some.inj h).symm

/-- The bytes of a byte-order mark have its code point as their value, and the least value of their
number is not above it. -/
theorem continuation_of_decoded (bytes : List UInt8) {high least count more : Nat}
    (h : (match Script.continuation high count bytes with
      | some n => if h : least ≤ n ∧ n.isValidChar then some (Char.ofNatAux n h.2, count) else none
      | none => none) = some (byteOrderMark, more)) :
    Script.continuation high count bytes = some 0xfeff ∧ least ≤ 0xfeff := by
  split at h
  · rename_i n hn
    split_ifs at h with hvalid
    have hchar : n = 0xfeff := congrArg Char.toNat (Prod.mk.inj (Option.some.inj h)).1
    subst hchar
    exact ⟨hn, hvalid.1⟩
  · cases h

/-- The code point `0xfeff` is encoded by three bytes. -/
theorem bytes_of_decodeChar {b : UInt8} {bytes : List UInt8} {more : Nat}
    (h : Script.decodeChar b bytes = some (byteOrderMark, more)) :
    String.utf8EncodeChar byteOrderMark <+: b :: bytes := by
  have hlt := b.toNat_lt
  unfold Script.decodeChar at h
  simp only at h
  split_ifs at h with h₁ h₂ h₃ h₄
  · have := continuation_zero (continuation_of_decoded bytes h).1
    omega
  · obtain ⟨c, rest, rfl, _, _, hrest⟩ := continuation_succ (continuation_of_decoded bytes h).1
    have := continuation_zero hrest
    omega
  · obtain ⟨c, rest, rfl, hc, hc', hrest⟩ := continuation_succ (continuation_of_decoded bytes h).1
    obtain ⟨d, rest, rfl, hd, hd', hrest⟩ := continuation_succ hrest
    have hsum := continuation_zero hrest
    have hb : b = 0xef := UInt8.toNat_inj.1 (by
      show b.toNat = 239
      omega)
    have hc : c = 0xbb := UInt8.toNat_inj.1 (by
      show c.toNat = 187
      omega)
    have hd : d = 0xbf := UInt8.toNat_inj.1 (by
      show d.toNat = 191
      omega)
    subst hb hc hd
    have hencode : String.utf8EncodeChar byteOrderMark = [0xef, 0xbb, 0xbf] := by decide
    rw [hencode]
    exact ⟨rest, rfl⟩
  · have := (continuation_of_decoded bytes h).2
    omega

/-- A text that does not start with the bytes of a byte-order mark is read from its first character
on. -/
theorem content_ofBytes {q : List UInt8} (h : ¬ String.utf8EncodeChar byteOrderMark <+: q) :
    (Script.ofBytes q).content = Script.ofBytes q := by
  cases q with
  | nil => rw [Script.ofBytes]; rfl
  | cons b bytes =>
    rw [Script.ofBytes]
    cases hchar : Script.decodeChar b bytes with
    | none =>
      have hne : Script.replacement ≠ byteOrderMark := by decide
      rw [Script.content, if_neg hne]
    | some found =>
      obtain ⟨c, more⟩ := found
      have hne : c ≠ byteOrderMark := by
        rintro rfl
        exact h (bytes_of_decodeChar hchar)
      unfold Script.mark
      rw [Script.content, if_neg hne]

/-! ### Two texts -/

/-- What becomes of a text behind another one and a line end, up to the texts of errors. -/
theorem outline_joined {p q : List UInt8} {ds : List Sexp}
    (hp : readAll (Source.ofBytes p) = .ok ds) (hq : ¬ String.utf8EncodeChar byteOrderMark <+: q) :
    (readAll (Source.ofBytes (p ++ Line.lineFeed :: q))).mapError ReadError.isIncomplete =
      ((readAll (Source.ofBytes q)).mapError ReadError.isIncomplete).map (ds ++ ·) := by
  have hdata : dataOf (Script.ofBytes p).content = .ok ds := by
    rw [← readAll_ofScript, ← Source.ofBytes, hp]
    rfl
  rw [Source.ofBytes, Shell.ofBytes_lineFeed, readAll_ofScript, Script.content_append,
    dataOf_append hdata,
    Source.ofBytes, readAll_ofScript, content_ofBytes hq]

/-- **A good text leaves nothing open.**  Behind a text that reads well and a line end, a text
without a byte-order mark reads as it does alone: its data follow, or it fails in the same way. -/
theorem readAll_joined {p q : List UInt8} {ds : List Sexp}
    (hp : readAll (Source.ofBytes p) = .ok ds) (hq : ¬ String.utf8EncodeChar byteOrderMark <+: q) :
    (∀ ds', readAll (Source.ofBytes q) = .ok ds' →
      readAll (Source.ofBytes (p ++ Line.lineFeed :: q)) = .ok (ds ++ ds')) ∧
    (∀ e, readAll (Source.ofBytes q) = .error e →
      ∃ e' flaw, readAll (Source.ofBytes (p ++ Line.lineFeed :: q)) = .error e' ∧
        e.flaw? = some flaw ∧ e'.flaw? = some flaw) := by
  have houtline := outline_joined hp hq
  have hflawed := flawed_readAll (Source.ofBytes (p ++ Line.lineFeed :: q))
  generalize readAll (Source.ofBytes (p ++ Line.lineFeed :: q)) = joined at houtline hflawed
  constructor
  · intro ds' hread
    rw [hread] at houtline
    cases joined with
    | ok data => exact congrArg Except.ok (Except.ok.inj houtline)
    | error e => cases houtline
  · intro e hread
    rw [hread] at houtline
    cases joined with
    | ok data => cases houtline
    | error e' =>
      have hincomplete : e'.isIncomplete = e.isIncomplete := Except.error.inj houtline
      obtain ⟨flaw, he, he'⟩ := flaw?_eq (flawed_readAll _ e hread) (hflawed e' rfl) hincomplete
      exact ⟨e', flaw, rfl, he, he'⟩

/-- The text `#t;` ends in a comment.  Behind it and a line end, `#f` adds its datum, and `#\` is as
incomplete as it is alone. -/
theorem readAll_joined_comment :
    let p : List UInt8 := [35, 116, 59]
    readAll (Source.ofBytes (p ++ Line.lineFeed :: [35, 102])) =
    .ok [.boolean true, .boolean false] ∧
    ∃ e', readAll (Source.ofBytes (p ++ Line.lineFeed :: [35, 92])) = .error e' ∧
      e'.flaw? = some .incomplete := by
  intro p
  have hscript {bytes : List UInt8} {text : String}
      (h : Script.ofBytes bytes = Script.ofString text) :
      Source.ofBytes bytes = Source.ofString text := congrArg Source.ofScript h
  have hp : readAll (Source.ofBytes p) = .ok [.boolean true] := by
    rw [@hscript p "#t;" (by decide +kernel)]
    rfl
  have hq : readAll (Source.ofBytes [35, 102]) = .ok [.boolean false] := by
    rw [@hscript [35, 102] "#f" (by decide +kernel)]
    rfl
  have hq' : readAll (Source.ofBytes [35, 92]) = .error .incompleteChar := by
    rw [@hscript [35, 92] "#\\" (by decide +kernel)]
    rfl
  refine ⟨(readAll_joined hp (by decide)).1 _ hq, ?_⟩
  obtain ⟨e', flaw, hread, he, he'⟩ := (readAll_joined hp (by decide)).2 _ hq'
  exact ⟨e', hread, by rw [he', ← he]; rfl⟩

/-! ### A text and its lines -/

/-- **The start of a good text is good or incomplete**, never malformed.  So a session that takes
the text line by line, and waits for more exactly on incomplete inputs, reads all of its inputs. -/
theorem readAll_multiline {p q : List UInt8} {ds : List Sexp}
    (h : readAll (Source.ofBytes (p ++ Line.lineFeed :: q)) = .ok ds) :
    ((∃ ds', readAll (Source.ofBytes p) = .ok ds') ∨
      ∃ e, readAll (Source.ofBytes p) = .error e ∧ e.flaw? = some .incomplete) ∧
    ∀ lines, List.intercalate [Line.lineFeed] lines = p ++ Line.lineFeed :: q → ∀ console history,
      ∀ input ∈ (Shell.Repl.begin console history).inputs (lines.map Script.ofBytes),
        ∃ ds', readAll (Source.ofScript input) = .ok ds' := by
  have hdata : dataOf (Script.ofBytes (p ++ Line.lineFeed :: q)).content = .ok ds := by
    rw [← readAll_ofScript, ← Source.ofBytes, h]
    rfl
  constructor
  · rw [Shell.ofBytes_lineFeed, Script.content_append] at hdata
    have hne := dataOf_ne_malformed hdata
    rw [← readAll_ofScript, ← Source.ofBytes] at hne
    cases hp : readAll (Source.ofBytes p) with
    | ok ds' => exact Or.inl ⟨ds', rfl⟩
    | error e =>
      refine Or.inr ⟨e, rfl, ?_⟩
      have hflawed := flawed_readAll _ e hp
      rw [hp] at hne
      cases e with
      | endOfInput => exact absurd rfl hflawed
      | malformed fault => exact absurd rfl hne
      | incomplete | incompleteChar => rfl
  · intro lines hlines console history input hinput
    have hjoin : (Shell.Repl.begin console history).remaining (lines.map Script.ofBytes) =
        Shell.joinLines (lines.map Script.ofBytes) := rfl
    rw [← hlines, Shell.ofBytes_intercalate, ← hjoin] at hdata
    obtain ⟨dss, hinputs, -⟩ := Shell.Repl.inputs_read (fun hne => absurd rfl hne) hdata
    have hmem : readAll (Source.ofScript input) ∈ dss.map Except.ok := by
      rw [← hinputs]
      exact List.mem_map_of_mem hinput
    obtain ⟨ds', -, hread⟩ := List.mem_map.1 hmem
    exact ⟨ds', hread.symm⟩

/-- The text `(#t` is incomplete, and a line end and `)` complete it. -/
theorem readAll_multiline_list :
    let p : List UInt8 := [40, 35, 116]
    (∃ e, readAll (Source.ofBytes p) = .error e ∧ e.flaw? = some .incomplete) ∧
    ∀ console history, ∀ input ∈ (Shell.Repl.begin console history).inputs
        ([p, [41]].map Script.ofBytes),
      ∃ ds', readAll (Source.ofScript input) = .ok ds' := by
  intro p
  have htext : Script.ofBytes (p ++ Line.lineFeed :: [41]) = Script.ofString "(#t\n)" := by
    decide +kernel
  have hread : readAll (Source.ofBytes (p ++ Line.lineFeed :: [41])) =
      .ok [.pair () (.boolean true) .nil] := by
    rw [Source.ofBytes, htext]
    rfl
  have hp : Script.ofBytes p = Script.ofString "(#t" := by decide +kernel
  obtain ⟨hfirst, hlines⟩ := readAll_multiline hread
  refine ⟨?_, hlines [p, [41]] rfl⟩
  rcases hfirst with ⟨ds', hgood⟩ | hincomplete
  · rw [Source.ofBytes, hp] at hgood
    cases hgood
  · exact hincomplete

end Scheme.Reader
