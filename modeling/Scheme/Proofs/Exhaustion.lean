import Mathlib
import Scheme.Proofs.Descent
import Scheme.Proofs.Scan

/-!
# Tokens run out

A reader can be called again and again, also after errors.  Each call takes a token as long as there
is one, so after as many calls as there were tokens none is left, and then every call says so.  In
the same way the loop over all data of a text comes to its end, and before it the loop that splits
the text into tokens.

* `takes_of_call`: what one call leaves;
* `Calls`, `length_add_length_le_of_calls`: calls one after the other, and how many tokens they
  leave;
* `Splits`, `ReadsAll`, `ReadsText`: the loops over a text, told without a bound on their rounds;
* `splits_iff_scan`, `readsAll_iff`: both loops end, with what the lexer and `readAllFrom` give;
* `reading_ends`: the main result.
-/

namespace Scheme.Reader

/-! ### One call -/

/-- A call finds no token, or only comments, or it takes a token. -/
theorem takes_of_call {ts rest : List Token} {r : Except ReadError Sexp} (h : Call ts r rest) :
    (r = .error .endOfInput ∧ rest = []) ∨ (rest <:+ ts ∧ rest.length < ts.length) := by
  by_cases hts : ts = []
  · subst hts
    cases call_iff_read.1 h
    exact .inl ⟨rfl, rfl⟩
  · obtain ⟨hsuffix, hlt⟩ := takes_of_descends h
    exact .inr ⟨hsuffix, hlt (.inl rfl) hts⟩

/-- There is nothing to read where no token is left. -/
theorem endOfInput_of_call_nil {r : Except ReadError Sexp} {rest : List Token}
    (h : Call [] r rest) :
    r = .error .endOfInput ∧ rest = [] := by
  cases call_iff_read.1 h
  exact ⟨rfl, rfl⟩

/-! ### Calls one after the other -/

/-- Calls of one reader, with their results in order and the tokens left after the last. -/
inductive Calls : List Token → List (Except ReadError Sexp) → List Token → Prop where
  | none (ts : List Token) : Calls ts [] ts
  | call {ts us left : List Token} {r : Except ReadError Sexp} {rs : List (Except ReadError Sexp)}
      (h : Call ts r us) (hrest : Calls us rs left) : Calls ts (r :: rs) left

/-- Every call takes one of the tokens, while there is one. -/
theorem length_add_length_le_of_calls {ts left : List Token} {rs : List (Except ReadError Sexp)}
    (h : Calls ts rs left) : left = [] ∨ left.length + rs.length ≤ ts.length := by
  induction h with
  | none => exact .inr le_rfl
  | call h hrest ih =>
    obtain ⟨-, rfl⟩ | ⟨-, hlt⟩ := takes_of_call h
    · obtain hleft | hle := ih
      · exact .inl hleft
      · rw [List.length_nil, Nat.le_zero, Nat.add_eq_zero_iff, List.length_eq_zero_iff] at hle
        exact .inl hle.1
    · refine ih.imp_right fun hle => ?_
      rw [List.length_cons]
      omega

/-- A reader can be called as often as one likes. -/
theorem exists_calls (ts : List Token) (n : Nat) : ∃ rs left, Calls ts rs left ∧ rs.length = n := by
  induction n generalizing ts with
  | zero => exact ⟨[], ts, .none ts, rfl⟩
  | succ n ih =>
    obtain ⟨r, us, h⟩ := exists_descends .next ts
    obtain ⟨rs, left, hrest, hlen⟩ := ih us
    exact ⟨r :: rs, left, .call h hrest, congrArg (· + 1) hlen⟩

/-! ### All tokens of a text -/

/-- The number of blanks in front. -/
def blanks (gs : List Glyph) : Nat := (gs.takeWhile fun g => isSpace g.char).length

/-- Splitting glyphs into tokens, round by round: blanks, and then a lexical unit. -/
inductive Splits (stop : Position) : List Glyph → Except ReadError (List Token) → Prop where
  | fault {gs : List Glyph} {f : Fault} (h : faultWithin gs (blanks gs) = some f) :
      Splits stop gs (malformedAt (.fault f) none)
  | ended {gs : List Glyph} (h : faultWithin gs (blanks gs) = none)
      (hgs : gs.drop (blanks gs) = []) :
      Splits stop gs (.ok [])
  | badLexeme {gs rest : List Glyph} {g : Glyph} {e : ReadError}
      (h : faultWithin gs (blanks gs) = none)
      (hgs : gs.drop (blanks gs) = g :: rest) (hlexeme : lexeme stop g rest = .error e) :
      Splits stop gs (.error e)
  | lexeme {gs rest us : List Glyph} {g : Glyph} {token : Option Token}
      {r : Except ReadError (List Token)}
      (h : faultWithin gs (blanks gs) = none) (hgs : gs.drop (blanks gs) = g :: rest)
      (hlexeme : lexeme stop g rest = .ok (token, us)) (hrest : Splits stop us r) :
      Splits stop gs (thenTokens token.toList r)

section Lexer

variable {stop : Position} {gs rest us : List Glyph} {g : Glyph} {token : Option Token}

/-- A round leaves fewer glyphs. -/
theorem length_lt_of_round (hgs : gs.drop (blanks gs) = g :: rest)
    (hlexeme : lexeme stop g rest = .ok (token, us)) : us.length < gs.length := by
  have hle := length_le_of_lexeme hlexeme
  have hlen := congrArg List.length hgs
  rw [List.length_drop, List.length_cons] at hlen
  omega

/-- What one round does. -/
theorem scan_round (stop : Position) (gs : List Glyph) : scan stop gs =
    match faultWithin gs (blanks gs) with
    | some f => malformedAt (.fault f) none
    | none =>
      match gs.drop (blanks gs) with
      | [] => .ok []
      | g :: rest =>
        match lexeme stop g rest with
        | .error e => .error e
        | .ok (token, us) => thenTokens token.toList (scan stop us) := by
  rw [scan, tokensFrom_eq stop le_rfl (Nat.le_succ gs.length), tokensFrom]
  simp only [← blanks.eq_def]
  cases faultWithin gs (blanks gs) with
  | some f => rfl
  | none =>
    cases hgs : gs.drop (blanks gs) with
    | nil => rfl
    | cons g rest =>
      cases hlexeme : lexeme stop g rest with
      | error e => simp only [hlexeme]
      | ok found =>
        obtain ⟨token, us⟩ := found
        have hlt := length_lt_of_round hgs hlexeme
        simp only [hlexeme, tokensFrom_eq stop hlt.le le_rfl, scan]
        cases tokensFrom stop us.length us <;> rfl

end Lexer

/-- **Splitting a text into tokens ends**, with the tokens of the lexer. -/
theorem splits_iff_scan {stop : Position} {gs : List Glyph} {r : Except ReadError (List Token)} :
    Splits stop gs r ↔ scan stop gs = r := by
  constructor
  · intro h
    induction h with
    | fault h => simp only [scan_round stop, h]
    | ended h hgs => simp only [scan_round stop, h, hgs]
    | badLexeme h hgs hlexeme =>
      rw [scan_round]
      simp only [h, hgs, hlexeme]
    | lexeme h hgs hlexeme _ ih =>
      rw [scan_round]
      simp only [h, hgs, hlexeme, ih]
  · rintro rfl
    induction hn : gs.length using Nat.strong_induction_on generalizing gs with
    | _ n ih =>
      rw [scan_round]
      cases h : faultWithin gs (blanks gs) with
      | some f => exact .fault h
      | none =>
        cases hgs : gs.drop (blanks gs) with
        | nil => exact .ended h hgs
        | cons g rest =>
          cases hlexeme : lexeme stop g rest with
          | error e =>
            simp only [hlexeme]
            exact .badLexeme h hgs hlexeme
          | ok found =>
            obtain ⟨token, us⟩ := found
            have hlt := length_lt_of_round hgs hlexeme
            simp only [hlexeme]
            exact .lexeme h hgs hlexeme (ih us.length (hn ▸ hlt) rfl)

/-! ### All data of a text -/

/-- Put a datum in front of those that come after it. -/
def thenDatum (d : Sexp) : Except ReadError (List Sexp) → Except ReadError (List Sexp)
  | .ok more => .ok (d :: more)
  | .error e => .error e

/-- Reading data until none is left, call by call. -/
inductive ReadsAll : List Token → Except ReadError (List Sexp) → Prop where
  | ended {ts rest : List Token} (h : Call ts (.error .endOfInput) rest) : ReadsAll ts (.ok [])
  | fails {ts rest : List Token} {e : ReadError} (h : Call ts (.error e) rest)
      (he : e ≠ .endOfInput) :
      ReadsAll ts (.error e)
  | datum {ts rest : List Token} {d : Sexp} {r : Except ReadError (List Sexp)}
      (h : Call ts (.ok d) rest)
      (hrest : ReadsAll rest r) : ReadsAll ts (thenDatum d r)

/-- What one round does. -/
theorem readAllFrom_succ (fuel : Nat) (ts : List Token) : readAllFrom (fuel + 1) ts =
    match read ts with
    | (.error .endOfInput, _) => .ok []
    | (.error e, _) => .error e
    | (.ok d, rest) => thenDatum d (readAllFrom fuel rest) := by
  rw [readAllFrom]
  obtain ⟨r, rest⟩ := read ts
  cases r with
  | error e => cases e <;> rfl
  | ok d =>
    simp only
    cases readAllFrom fuel rest <;> rfl

/-- The loop ends within as many rounds as there are tokens and one more. -/
theorem readsAll_readAllFrom {fuel : Nat} {ts : List Token} (h : ts.length < fuel) :
    ReadsAll ts (readAllFrom fuel ts) := by
  induction fuel generalizing ts with
  | zero => exact absurd h (Nat.not_lt_zero _)
  | succ fuel ih =>
    obtain ⟨r, rest, hcall⟩ := exists_descends .next ts
    rw [readAllFrom_succ, call_iff_read.1 hcall]
    cases r with
    | error e =>
      by_cases he : e = .endOfInput
      · subst he
        exact .ended hcall
      · cases e with
        | endOfInput => exact absurd rfl he
        | _ => exact .fails hcall he
    | ok d =>
      obtain ⟨hr, -⟩ | ⟨-, hlt⟩ := takes_of_call hcall
      · cases hr
      · exact .datum hcall (ih (by omega))

/-- There is one way for the loop to end. -/
theorem ReadsAll.unique {ts : List Token} {r r' : Except ReadError (List Sexp)} (h : ReadsAll ts r)
    (h' : ReadsAll ts r') : r = r' := by
  -- both loops make the same call first
  have hcall {ts rest rest' : List Token} {x x' : Except ReadError Sexp} (h : Call ts x rest)
      (h' : Call ts x' rest') : (x, rest) = (x', rest') :=
        (call_iff_read.1 h).symm.trans (call_iff_read.1 h')
  induction h generalizing r' with
  | ended h =>
    cases h' with
    | ended => rfl
    | fails h' he =>
      cases hcall h h'
      exact absurd rfl he
    | datum h' => cases hcall h h'
  | fails h he =>
    cases h' with
    | ended h' =>
      cases hcall h h'
      exact absurd rfl he
    | fails h' =>
      cases hcall h h'
      rfl
    | datum h' => cases hcall h h'
  | datum h _ ih =>
    cases h' with
    | ended h' => cases hcall h h'
    | fails h' => cases hcall h h'
    | datum h' hrest' =>
      cases hcall h h'
      rw [ih hrest']

/-- **Reading all data ends**, with what rounds enough for all tokens give. -/
theorem readsAll_iff {ts : List Token} {r : Except ReadError (List Sexp)} :
    ReadsAll ts r ↔ readAllFrom (ts.length + 1) ts = r := by
  have hends := readsAll_readAllFrom (Nat.lt_succ_self ts.length)
  constructor
  · exact fun h => hends.unique h
  · rintro rfl
    exact hends

/-- Reading all data of a text: its tokens first, and then the data. -/
inductive ReadsText (source : Source) : Except ReadError (List Sexp) → Prop where
  | fault {f : Fault} (h : headFault source.glyphs = some f) :
      ReadsText source (malformedAt (.fault f) none)
  | badToken {e : ReadError} (h : headFault source.glyphs = none)
      (htokens : Splits source.stop source.glyphs (.error e)) : ReadsText source (.error e)
  | data {ts : List Token} {r : Except ReadError (List Sexp)} (h : headFault source.glyphs = none)
      (htokens : Splits source.stop source.glyphs (.ok ts)) (hdata : ReadsAll ts r) :
      ReadsText source r

theorem readsText_iff {source : Source} {r : Except ReadError (List Sexp)} :
    ReadsText source r ↔ readAll source = r := by
  rw [readAll, tokens_eq_scan]
  constructor
  · intro h
    cases h with
    | fault h => simp only [h, malformedAt]
    | badToken h htokens => simp only [h, splits_iff_scan.1 htokens]
    | data h htokens hdata => simp only [h, splits_iff_scan.1 htokens, readsAll_iff.1 hdata]
  · rintro rfl
    cases h : headFault source.glyphs with
    | some f => exact .fault h
    | none =>
      cases htokens : scan source.stop source.glyphs with
      | error e => exact .badToken h (splits_iff_scan.2 htokens)
      | ok ts => exact .data h (splits_iff_scan.2 htokens) (readsAll_iff.2 rfl)

/-! ### Reading ends -/

/-- **Reading ends.**  A call for the next datum ends in one way.  In every sequence of calls, which
can go on after errors and as long as one likes, each call says that no datum is left and leaves no
token, or it leaves fewer tokens, the last ones, than it was given; and after as many calls as there
were tokens every call says that no datum is left.  Reading all data of a text ends in one way as
well. -/
theorem reading_ends :
    (∀ (ts : List Token) (r : Except ReadError Sexp) (rest : List Token),
      Call ts r rest ↔ read ts = (r, rest)) ∧
    (∀ (ts : List Token) (rs : List (Except ReadError Sexp)) (left : List Token), Calls ts rs left →
      ∀ (r : Except ReadError Sexp) (rest : List Token), Call left r rest →
        ((r = .error .endOfInput ∧ rest = []) ∨ (rest <:+ left ∧ rest.length < left.length)) ∧
        (ts.length ≤ rs.length → r = .error .endOfInput ∧ rest = [])) ∧
    (∀ (ts : List Token) (n : Nat), ∃ rs left, Calls ts rs left ∧ rs.length = n) ∧
    (∀ (source : Source) (r : Except ReadError (List Sexp)), ReadsText source r ↔
      readAll source = r) := by
  refine ⟨fun _ _ _ => call_iff_read, fun ts rs left hcalls r rest hcall => ?_, exists_calls,
    fun _ _ => readsText_iff⟩
  refine ⟨takes_of_call hcall, fun hlen => ?_⟩
  have hnil : left = [] := by
    obtain hleft | hle := length_add_length_le_of_calls hcalls
    · exact hleft
    · exact List.length_eq_zero_iff.1 (by omega)
  subst hnil
  exact endOfInput_of_call_nil hcall

/-- The tokens `( . a`: the first call leaves the dot, which the second takes and refuses again, and
the third reads the datum. -/
example :
    let ts : List Token := [⟨.listOpen, none⟩, ⟨.dot, none⟩, ⟨.atom (.symbol "a"), none⟩]
    read ts = (malformedAt .unexpectedDot none, ts.drop 1) ∧
      read (ts.drop 1) = (malformedAt .unexpectedDot none, ts.drop 2) ∧
      read (ts.drop 2) = (.ok (.symbol "a"), []) ∧ read [] = (.error .endOfInput, []) :=
  ⟨rfl, rfl, rfl, rfl⟩

end Scheme.Reader
