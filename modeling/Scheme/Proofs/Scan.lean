import Mathlib
import Scheme.Reader.Lexer

/-!
# The lexer, one step at a time

`tokensFrom` passes over a run of blanks and then reads one lexical unit, for as many rounds as
there are glyphs.  The number of rounds does not matter if it is large enough, and a run of blanks
can be passed one by one.

* `scan`: the tokens of a text, with as many rounds as it takes;
* `scan_space`, `scan_lexeme`: what one step does;
* `exists_lexeme_of_mem_scan`: every token is a lexical unit of the text;
* `tokens_eq_scan`: all tokens of a source text;
* `raw_ofScript`: the characters of a source text are those of its script.
-/

namespace Scheme.Reader

/-- The fault of the first glyph. -/
def headFault (gs : List Glyph) : Option Fault := gs.head?.bind (·.fault)

/-- The tokens of `gs`, given that the first glyph has been read without a fault. -/
def scan (stop : Position) (gs : List Glyph) : Except ReadError (List Token) :=
  tokensFrom stop gs.length gs

/-- Put tokens in front of those that come after them. -/
def thenTokens (ts : List Token) : Except ReadError (List Token) → Except ReadError (List Token)
  | .ok more => .ok (ts ++ more)
  | .error e => .error e

@[simp] theorem thenTokens_nil (r : Except ReadError (List Token)) : thenTokens [] r = r := by
  cases r <;> rfl

theorem thenTokens_append (ts us : List Token) (r : Except ReadError (List Token)) :
    thenTokens (ts ++ us) r = thenTokens ts (thenTokens us r) := by
  cases r with
  | error e => rfl
  | ok more => simp [thenTokens]

theorem thenTokens_eq_ok {ts us : List Token} {r : Except ReadError (List Token)}
    (h : thenTokens ts r = .ok us) : ∃ more, r = .ok more ∧ us = ts ++ more := by
  cases r with
  | error e => cases h
  | ok more =>
    cases h
    exact ⟨more, rfl, rfl⟩

theorem faultWithin_zero (gs : List Glyph) : faultWithin gs 0 = none := rfl

theorem faultWithin_cons_succ (g : Glyph) (gs : List Glyph) (n : Nat) :
    faultWithin (g :: gs) (n + 1) = (headFault gs).or (faultWithin gs n) := by
  cases gs with
  | nil => simp [faultWithin, headFault]
  | cons g' gs =>
    simp only [faultWithin, headFault, List.tail_cons, List.take_succ_cons, List.findSome?_cons,
      List.head?_cons, Option.bind_some]
    cases g'.fault <;> rfl

/-- A lexical unit is what its first character means, and what is left comes after its glyphs. -/
theorem meaning_of_lexeme {stop : Position} {g : Glyph} {gs rest : List Glyph}
    {token : Option Token} (h : lexeme stop g gs = .ok (token, rest)) :
    ∃ kind count, meaning stop (some g.position) g.char (wordRest g gs)
      (gs.drop (wordRest g gs).length) =
      .ok (kind, count) ∧ token.map Token.kind = kind ∧
      rest = (gs.drop (wordRest g gs).length).drop count := by
  unfold lexeme at h
  simp only at h
  split at h
  · cases h
  · split at h
    · cases h
    · rename_i kind count hmeaning
      split at h
      · cases h
      · cases h
        refine ⟨kind, count, hmeaning, ?_, rfl⟩
        cases kind <;> rfl

/-- A lexical unit leaves no more than it was given. -/
theorem length_le_of_lexeme {stop : Position} {g : Glyph} {gs rest : List Glyph}
    {token : Option Token} (h : lexeme stop g gs = .ok (token, rest)) :
    rest.length ≤ gs.length := by
  obtain ⟨kind, count, -, -, rfl⟩ := meaning_of_lexeme h
  simp only [List.length_drop]
  omega

/-- The tokens of `gs` do not depend on the number of rounds, if there are enough. -/
theorem tokensFrom_eq (stop : Position) {fuel fuel' : Nat} {gs : List Glyph} (h : gs.length ≤ fuel)
    (h' : gs.length ≤ fuel') : tokensFrom stop fuel gs = tokensFrom stop fuel' gs := by
  induction fuel generalizing gs fuel' with
  | zero =>
    have hnil : gs = [] := List.length_eq_zero_iff.1 (by omega)
    subst hnil
    cases fuel' <;> rfl
  | succ fuel ih =>
    cases fuel' with
    | zero =>
      have hnil : gs = [] := List.length_eq_zero_iff.1 (by omega)
      subst hnil
      rfl
    | succ fuel' =>
      unfold tokensFrom
      simp only
      split
      · rfl
      · split
        · rfl
        · rename_i g rest hdrop
          -- a lexical unit takes at least the glyph it starts with, so a round less is enough for
          -- the rest
          have hlen : rest.length < gs.length := by
            have hl := congrArg List.length hdrop
            simp only [List.length_drop, List.length_cons] at hl
            omega
          split
          · rfl
          · rename_i token rest' hlexeme
            have hle := length_le_of_lexeme hlexeme
            rw [ih (by omega) (by omega : rest'.length ≤ fuel')]

@[simp] theorem scan_nil (stop : Position) : scan stop [] = .ok [] := rfl

/-- A blank is passed when the glyph after it is read. -/
theorem scan_space (stop : Position) {g : Glyph} (gs : List Glyph) (h : isSpace g.char = true) :
    scan stop (g :: gs) =
      match headFault gs with
      | some f => malformedAt (.fault f) none
      | none => scan stop gs := by
  -- a round on `g :: gs` does what a round on `gs` does, once the fault is looked at
  have hround : scan stop (g :: gs) =
      match headFault gs with
      | some f => malformedAt (.fault f) none
      | none => tokensFrom stop (gs.length + 1) gs := by
    unfold scan
    rw [List.length_cons, tokensFrom, tokensFrom]
    simp only [List.takeWhile_cons, h, if_true, List.length_cons, faultWithin_cons_succ,
      List.drop_succ_cons]
    cases headFault gs <;> rfl
  rw [hround, tokensFrom_eq stop (Nat.le_succ gs.length) le_rfl]
  rfl

/-- A lexical unit starts at a glyph that is no blank. -/
theorem scan_lexeme (stop : Position) {g : Glyph} (gs : List Glyph) (h : isSpace g.char = false) :
    scan stop (g :: gs) =
      match lexeme stop g gs with
      | .error e => .error e
      | .ok (token, rest) => thenTokens token.toList (scan stop rest) := by
  unfold scan
  rw [List.length_cons, tokensFrom]
  simp only [List.takeWhile_cons, h, Bool.false_eq_true, if_false, List.length_nil,
    faultWithin_zero,
    List.drop_zero]
  cases hlexeme : lexeme stop g gs with
  | error e => rfl
  | ok found =>
    obtain ⟨token, rest⟩ := found
    simp only
    rw [tokensFrom_eq stop (length_le_of_lexeme hlexeme) le_rfl]
    cases tokensFrom stop rest.length rest <;> rfl

/-- Every token of a text is a lexical unit that starts somewhere in it. -/
theorem exists_lexeme_of_mem_scan {stop : Position} {gs : List Glyph} {ts : List Token} {t : Token}
    (h : scan stop gs = .ok ts) (ht : t ∈ ts) :
    ∃ g gs' rest, (g :: gs').length ≤ gs.length ∧ lexeme stop g gs' = .ok (some t, rest) := by
  induction hn : gs.length using Nat.strongRecOn generalizing gs ts with
  | _ n ih =>
    cases gs with
    | nil =>
      cases h
      cases ht
    | cons g gs =>
      rw [List.length_cons] at hn
      cases hspace : isSpace g.char with
      | true =>
        rw [scan_space stop gs hspace] at h
        split at h
        · cases h
        · obtain ⟨g', gs', rest, hlen, hlexeme⟩ := ih gs.length (by omega) h ht rfl
          exact ⟨g', gs', rest, by omega, hlexeme⟩
      | false =>
        rw [scan_lexeme stop gs hspace] at h
        cases hlexeme : lexeme stop g gs with
        | error e =>
          rw [hlexeme] at h
          cases h
        | ok found =>
          obtain ⟨token, rest⟩ := found
          rw [hlexeme] at h
          obtain ⟨more, hmore, rfl⟩ := thenTokens_eq_ok h
          obtain hfirst | hlater := List.mem_append.1 ht
          · obtain rfl : token = some t := by simpa using hfirst
            exact ⟨g, gs, rest, hn.le, hlexeme⟩
          · have hle := length_le_of_lexeme hlexeme
            obtain ⟨g', gs', rest', hlen, hlexeme'⟩ := ih rest.length (by omega) hmore hlater rfl
            exact ⟨g', gs', rest', by omega, hlexeme'⟩

/-- All tokens of a source text. -/
theorem tokens_eq_scan (source : Source) :
    tokens source =
      match headFault source.glyphs with
      | some f => malformedAt (.fault f) none
      | none => scan source.stop source.glyphs := rfl

/-! ### The characters of a source text -/

/-- The characters of glyphs, with their faults. -/
def raw (gs : List Glyph) : Script := gs.map fun g => (g.char, g.fault)

theorem map_char_eq (gs : List Glyph) : gs.map Glyph.char = (raw gs).map (·.1) := by
  simp [raw]

/-- A run of characters is the same before and after the positions are dropped. -/
theorem map_char_takeWhile (p : Char → Bool) (gs : List Glyph) :
    (gs.takeWhile fun g => p g.char).map Glyph.char = (gs.map Glyph.char).takeWhile p :=
  List.takeWhile_map.symm

theorem raw_locate (script : Script) (p : Position) (found : List Glyph) :
    raw (locate script p found).glyphs = raw found.reverse ++ script := by
  induction script generalizing p found with
  | nil => simp [locate]
  | cons c script ih =>
    obtain ⟨c, fault⟩ := c
    rw [locate, ih]
    simp [raw]

/-- What is left of a text when a byte-order mark in front is skipped. -/
def Script.content : Script → Script
  | [] => []
  | (c, fault) :: s => if c = byteOrderMark then s else (c, fault) :: s

theorem Script.length_content_le (s : Script) : s.content.length ≤ s.length := by
  match s with
  | [] => exact le_rfl
  | (c, fault) :: s =>
    rw [Script.content]
    split_ifs
    · exact Nat.le_succ _
    · exact le_rfl

theorem Script.mem_of_mem_content {s : Script} {p : Char × Option Fault} (h : p ∈ s.content) :
    p ∈ s := by
  match s with
  | [] => exact h
  | (c, fault) :: s =>
    rw [Script.content] at h
    split_ifs at h
    · exact List.mem_cons_of_mem _ h
    · exact h

/-- The glyphs of a script stand for its characters, but for a byte-order mark in front. -/
theorem raw_ofScript (script : Script) : raw (Source.ofScript script).glyphs = script.content := by
  match script with
  | [] => rfl
  | (c, fault) :: rest =>
    rw [Source.ofScript, Script.content]
    split_ifs <;> rw [raw_locate] <;> rfl

end Scheme.Reader
