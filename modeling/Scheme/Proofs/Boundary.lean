import Mathlib
import Scheme.Proofs.Scan

/-!
# Lexing across a line end

What the lexer makes of a text does not depend on where the text stands, and hardly on what follows
a line end: the tokens before it are the same, and what is malformed stays malformed.  Only a text
that ends inside a lexical unit can change its meaning when more lines follow.

* `Extends`: a text and the same text with a line end and more behind it;
* `Carries`: how a result for a text carries over to its extension;
* `carries_lexeme`: one lexical unit;
* `outlineCarries_scan`: all tokens;
* `kindsOf_append`, `kindsOf_append_malformed`: texts and what follows behind a line end.
-/

namespace Scheme.Reader

/-- A text that follows another one: nothing, or a line end and more. -/
def LineEnds (rest : Script) : Prop := rest = [] ∨ ∃ more, rest = Script.mark '\n' :: more

/-- The glyphs `hs` are those of `gs`, but for their positions, and then those of `rest`. -/
def Extends (rest : Script) (gs hs : List Glyph) : Prop := raw hs = raw gs ++ rest

/-- A result for a text carries over to its extension: a success by the relation `R`, and a failure
as a failure of the same sort, unless more text can mend it. -/
def Carries {α : Type} (rest : Script) (R : α → Prop) :
    Except ReadError α → Except ReadError α → Prop
  | .ok a, r => r = .ok a ∧ R a
  | .error e, r => rest = [] ∨ e.isIncomplete = false →
      ∃ e', r = .error e' ∧ e'.isIncomplete = e.isIncomplete

/-! ### Extended lists of glyphs -/

section Extended

variable {rest : Script} {gs hs : List Glyph}

theorem Extends.nil (h : Extends rest [] hs) : raw hs = rest := h

theorem Extends.cons {g : Glyph} (h : Extends rest (g :: gs) hs) :
    ∃ g' hs', hs = g' :: hs' ∧ g'.char = g.char ∧ g'.fault = g.fault ∧ Extends rest gs hs' := by
  obtain ⟨g', hs', rfl, hg, hhs⟩ := List.map_eq_cons_iff.1 h
  obtain ⟨hchar, hfault⟩ := Prod.mk.inj hg
  exact ⟨g', hs', rfl, hchar, hfault, hhs⟩

theorem Extends.drop (h : Extends rest gs hs) {n : Nat} (hn : n ≤ gs.length) :
    Extends rest (gs.drop n) (hs.drop n) := by
  induction n generalizing gs hs with
  | zero => exact h
  | succ n ih =>
    cases gs with
    | nil => simp at hn
    | cons g gs =>
      obtain ⟨g', hs', rfl, -, -, h'⟩ := h.cons
      exact ih h' (by simpa using hn)

theorem Extends.chars (h : Extends rest gs hs) :
    hs.map Glyph.char = gs.map Glyph.char ++ rest.map (·.1) := by
  rw [map_char_eq, map_char_eq, ← List.map_append]
  exact congrArg _ h

/-- A run of characters other than the line end is the same before a line end. -/
theorem takeWhile_chars {p : Char → Bool} (hp : p '\n' = false) (hrest : LineEnds rest)
    (cs : List Char) : (cs ++ rest.map (·.1)).takeWhile p = cs.takeWhile p := by
  rw [List.takeWhile_append]
  split_ifs with hall
  · have heq : cs.takeWhile p = cs := (List.takeWhile_prefix p).eq_of_length hall
    rcases hrest with rfl | ⟨more, rfl⟩
    · simp [heq]
    · simp [Script.mark, hp, heq]
  · rfl

theorem Extends.takeWhile (h : Extends rest gs hs) (hrest : LineEnds rest) {p : Char → Bool}
    (hp : p '\n' = false) : (hs.takeWhile fun g => p g.char).map Glyph.char =
      (gs.takeWhile fun g => p g.char).map Glyph.char := by
  rw [map_char_takeWhile, map_char_takeWhile, h.chars, takeWhile_chars hp hrest]

theorem Extends.length_takeWhile (h : Extends rest gs hs) (hrest : LineEnds rest) {p : Char → Bool}
    (hp : p '\n' = false) :
    (hs.takeWhile fun g => p g.char).length = (gs.takeWhile fun g => p g.char).length := by
  simpa using congrArg List.length (h.takeWhile hrest hp)

/-- The next character is the same, or it is the end of the text that is followed by a line end. -/
theorem Extends.peek (h : Extends rest gs hs) (hrest : LineEnds rest) :
    peek hs = peek gs ∨ (gs = [] ∧ rest ≠ [] ∧ peek hs = some '\n') := by
  cases gs with
  | nil =>
    rcases hrest with rfl | ⟨more, rfl⟩
    · have hnil : hs = [] := by simpa [raw] using h.nil
      exact Or.inl (by rw [hnil])
    · obtain ⟨g, hs', rfl, hg, -⟩ := List.map_eq_cons_iff.1 h.nil
      exact Or.inr ⟨rfl, by simp, congrArg some (Prod.mk.inj hg).1⟩
  | cons g gs =>
    obtain ⟨g', hs', rfl, hchar, -, -⟩ := h.cons
    exact Or.inl (congrArg some hchar)

theorem Extends.peek_eq_iff (h : Extends rest gs hs) (hrest : LineEnds rest) {c : Char}
    (hc : c ≠ '\n') : Reader.peek hs = some c ↔ Reader.peek gs = some c := by
  rcases h.peek hrest with heq | ⟨rfl, -, hpeek⟩
  · rw [heq]
  · rw [hpeek]
    simp [Reader.peek, hc.symm]

/-- Glyphs that are read within a text have the same faults in its extension. -/
theorem Extends.faultWithin (h : Extends rest gs hs) (hrest : LineEnds rest) {n : Nat}
    (hn : n ≤ gs.length) : faultWithin hs n = faultWithin gs n := by
  have hfault (gs : List Glyph) (n : Nat) :
      Reader.faultWithin gs n = ((raw gs).tail.take n).findSome? (·.2) := by
    rw [Reader.faultWithin, raw, ← List.map_tail, ← List.map_take, List.findSome?_map]
    rfl
  cases gs with
  | nil =>
    have hzero : n = 0 := by simpa using hn
    rw [hzero, faultWithin_zero, faultWithin_zero]
  | cons g gs =>
    obtain ⟨g', hs', rfl, -, -, h'⟩ := h.cons
    have hlen : n ≤ (raw gs).length + 1 := by simpa [raw] using hn
    rw [hfault, hfault]
    show ((raw hs').take n).findSome? _ = ((raw gs).take n).findSome? _
    rw [show raw hs' = raw gs ++ rest from h', List.take_append, List.findSome?_append]
    -- at most one glyph of `rest` is read, and that is the line end
    have hnone : (rest.take (n - (raw gs).length)).findSome? (·.2) = none := by
      rcases hrest with rfl | ⟨more, rfl⟩
      · simp
      · obtain h0 | h1 : n - (raw gs).length = 0 ∨ n - (raw gs).length = 1 := by omega
        · simp [h0]
        · rw [h1]
          rfl
    rw [hnone, Option.or_none]

/-! ### Escapes -/

theorem Extends.hexDigits (h : Extends rest gs hs) (hrest : LineEnds rest) (limit : Nat) :
    hexDigits limit hs = hexDigits limit gs := by
  have htake : LineEnds (rest.take (limit - gs.length)) := by
    rcases hrest with rfl | ⟨more, rfl⟩
    · exact Or.inl List.take_nil
    · cases limit - gs.length with
      | zero => exact Or.inl rfl
      | succ n => exact Or.inr ⟨more.take n, rfl⟩
  rw [Reader.hexDigits, Reader.hexDigits, List.map_take, List.map_take, h.chars, List.take_append,
    List.length_map, ← @List.map_take _ _ Prod.fst, takeWhile_chars (by decide) htake]

theorem length_hexDigits_le (limit : Nat) (gs : List Glyph) :
    (hexDigits limit gs).length ≤ gs.length := by
  refine le_trans (List.takeWhile_prefix _).length_le ?_
  simp

/-- The character with the code point `digits`. -/
theorem carries_hexChar (digits : List Char) (kind : Char) (place place' : Option Position)
    {count : Nat} (hcount : count ≤ gs.length) : Carries rest (fun r => r.2 ≤ gs.length)
      (match Text.hexChar? digits with
        | some c => .ok (c, count)
        | none => malformedAt (.badHexEscape kind) place)
      (match Text.hexChar? digits with
        | some c => .ok (c, count)
        | none => malformedAt (.badHexEscape kind) place') := by
  cases Text.hexChar? digits with
  | some c => exact ⟨rfl, hcount⟩
  | none => exact fun _ => ⟨_, rfl, rfl⟩

theorem carries_hexEscapeRest (h : Extends rest gs hs) (hrest : LineEnds rest)
    (stop stop' : Position) (kind : Char) : Carries rest (fun r => r.2 ≤ gs.length)
      (hexEscapeRest stop kind gs) (hexEscapeRest stop' kind hs) := by
  unfold hexEscapeRest
  simp only [h.hexDigits hrest]
  generalize hdigits : hexDigits (if kind = 'u' then 4 else 8) gs = digits
  have hlen : digits.length ≤ gs.length := hdigits ▸ length_hexDigits_le _ gs
  split_ifs with hx
  · have hd := h.drop hlen
    rcases hd.peek hrest with hpeek | ⟨hnil, hne, hpeek⟩
    · rw [hpeek]
      cases hgs : peek (gs.drop digits.length) with
      | none => exact fun _ => ⟨_, rfl, rfl⟩
      | some c =>
        by_cases hc : c = ';'
        · subst hc
          refine carries_hexChar digits kind _ _ ?_
          by_contra hlt
          have hdrop : gs.drop digits.length = [] := List.drop_eq_nil_iff.2 (by omega)
          rw [hdrop] at hgs
          cases hgs
        · simp [Carries, malformedAt, ReadError.isIncomplete]
    · rw [hnil]
      rintro (hempty | hfalse)
      · exact absurd hempty hne
      · cases hfalse
  · exact carries_hexChar digits kind _ _ hlen

theorem carries_malformed {α : Type} {R : α → Prop} (f f' : SyntaxFault) :
    Carries rest R (.error (.malformed f)) (.error (.malformed f')) :=
  fun _ => ⟨_, rfl, rfl⟩

/-- The end of a text carries over if nothing follows. -/
theorem carries_nil {α : Type} {R : α → Prop} {f f' : List Glyph → Except ReadError α}
    {e : ReadError} (h : Extends rest [] hs) (he : e.isIncomplete = true) (hf : f [] = .error e)
    (hf' : f' [] = .error e) :
    Carries rest R (f []) (f' hs) := by
  rw [hf]
  rintro (rfl | hfalse)
  · have hnil : hs = [] := by simpa [raw] using h.nil
    exact ⟨e, by rw [hnil, hf'], rfl⟩
  · rw [he] at hfalse
    cases hfalse

/-- A failure that is passed on carries over. -/
theorem Carries.error {α β : Type} {R : α → Prop} {S : β → Prop} {e : ReadError}
    {y : Except ReadError α} {r : Except ReadError β} (h : Carries rest R (.error e) y)
    (hr : ∀ e', y = .error e' → r = .error e') : Carries rest S (.error e) r := by
  intro hcond
  obtain ⟨e', hy, he'⟩ := h hcond
  exact ⟨e', hr e' hy, he'⟩

/-- What an escape by code point stands for, after its letter. -/
theorem carries_hexEscape (h : Extends rest gs hs) (hrest : LineEnds rest) (stop stop' : Position)
    (kind : Char) : Carries rest (fun r => r.2 ≤ gs.length + 1)
      (match hexEscapeRest stop kind gs with
        | .ok (c, count) => .ok ([c], 1 + count)
        | .error e => .error e)
      (match hexEscapeRest stop' kind hs with
        | .ok (c, count) => .ok ([c], 1 + count)
        | .error e => .error e) := by
  have hcarries := carries_hexEscapeRest h hrest stop stop' kind
  cases hgs : hexEscapeRest stop kind gs with
  | ok r =>
    rw [hgs] at hcarries
    obtain ⟨hhs, hle⟩ := hcarries
    rw [hhs]
    exact ⟨rfl, by simp only; omega⟩
  | error e =>
    rw [hgs] at hcarries
    exact hcarries.error fun e' hhs => by rw [hhs]

theorem carries_stringEscape (h : Extends rest gs hs) (hrest : LineEnds rest)
    (stop stop' : Position) :
    Carries rest (fun r => r.2 ≤ gs.length) (stringEscape stop gs) (stringEscape stop' hs) := by
  cases gs with
  | nil => exact carries_nil h rfl rfl rfl
  | cons g gs =>
    obtain ⟨g', hs', rfl, hchar, -, h'⟩ := h.cons
    simp only [stringEscape, hchar]
    cases letterEscape? g.char with
    | some c => exact ⟨rfl, by simp⟩
    | none =>
      simp only
      split_ifs with hnewline hhex
      · have hlen := @Extends.length_takeWhile rest gs hs' h' hrest isIndent (by decide)
        refine ⟨by rw [hlen], ?_⟩
        have hle := (List.takeWhile_prefix (l := gs) fun g => isIndent g.char).length_le
        simp only [List.length_cons]
        omega
      · exact carries_hexEscape h' hrest stop stop' g.char
      · exact carries_malformed _ _

theorem carries_symbolEscape (h : Extends rest gs hs) (hrest : LineEnds rest)
    (stop stop' : Position) :
    Carries rest (fun r => r.2 ≤ gs.length) (symbolEscape stop gs) (symbolEscape stop' hs) := by
  cases gs with
  | nil => exact carries_nil h rfl rfl rfl
  | cons g gs =>
    obtain ⟨g', hs', rfl, hchar, -, h'⟩ := h.cons
    simp only [symbolEscape, hchar]
    split_ifs with hplain hhex
    · exact ⟨rfl, by simp⟩
    · exact carries_hexEscape h' hrest stop stop' g.char
    · exact carries_malformed _ _

/-! ### Texts between quotes and bars -/

/-- Escapes that carry over. -/
def EscapeCarries (rest : Script)
    (escape escape' : List Glyph → Except ReadError (List Char × Nat)) : Prop :=
  ∀ gs hs, Extends rest gs hs → Carries rest (fun r => r.2 ≤ gs.length) (escape gs) (escape' hs)

theorem carries_quotedRest {quote : Char}
    {escape escape' : List Glyph → Except ReadError (List Char × Nat)}
    (hescape : EscapeCarries rest escape escape') (h : Extends rest gs hs) :
    Carries rest (fun r => r.2 ≤ gs.length) (quotedRest quote escape gs)
      (quotedRest quote escape' hs) := by
  induction hn : gs.length using Nat.strongRecOn generalizing gs hs with
  | _ n ih =>
    cases gs with
    | nil => exact carries_nil h rfl (by rw [quotedRest]) (by rw [quotedRest])
    | cons g gs =>
      obtain ⟨g', hs', rfl, hchar, -, h'⟩ := h.cons
      rw [List.length_cons] at hn
      rw [quotedRest, quotedRest, hchar]
      split_ifs with hquote hback
      · exact ⟨rfl, by omega⟩
      · -- an escape, and then the rest of the text after it
        have hfirst := hescape gs hs' h'
        cases hgs : escape gs with
        | error e =>
          rw [hgs] at hfirst
          exact hfirst.error fun e' hhs => by rw [hhs]
        | ok r =>
          obtain ⟨cs, count⟩ := r
          rw [hgs] at hfirst
          obtain ⟨hhs, hle⟩ := hfirst
          rw [hhs]
          simp only at hle ⊢
          have hmore :=
            ih (gs.drop count).length (by rw [List.length_drop]; omega) (h'.drop hle) rfl
          cases hread : quotedRest quote escape (gs.drop count) with
          | error e =>
            rw [hread] at hmore
            exact hmore.error fun e' hhs' => by rw [hhs']
          | ok r =>
            rw [hread] at hmore
            obtain ⟨hhs', hle'⟩ := hmore
            rw [hhs']
            rw [List.length_drop] at hle'
            exact ⟨rfl, by simp only; omega⟩
      · have hmore := ih gs.length (by omega) h' rfl
        cases hread : quotedRest quote escape gs with
        | error e =>
          rw [hread] at hmore
          exact hmore.error fun e' hhs' => by rw [hhs']
        | ok r =>
          rw [hread] at hmore
          obtain ⟨hhs', hle'⟩ := hmore
          rw [hhs']
          exact ⟨rfl, by simp only; omega⟩

/-! ### Lexical units -/

theorem hashToken?_nil (h : Extends rest [] hs) (hrest : LineEnds rest) : hashToken? hs = none := by
  unfold hashToken?
  rcases h.peek hrest with hpeek | ⟨-, -, hpeek⟩ <;> rw [hpeek] <;> rfl

theorem hashToken?_extends (h : Extends rest gs hs) (hrest : LineEnds rest) :
    hashToken? hs = hashToken? gs := by
  cases gs with
  | nil =>
    rw [hashToken?_nil h hrest]
    rfl
  | cons g gs =>
    obtain ⟨g', hs', rfl, hchar, -, h'⟩ := h.cons
    have htail : peek hs' = some '@' ↔ peek gs = some '@' := h'.peek_eq_iff hrest (by decide)
    have hpeek : peek (g' :: hs') = peek (g :: gs) := congrArg some hchar
    unfold hashToken?
    rw [hpeek]
    by_cases hat : peek gs = some '@'
    · simp [hat, htail.2 hat]
    · have hat' : ¬ peek hs' = some '@' := fun hat' => hat (htail.1 hat')
      simp [hat, hat']

theorem hashToken?_count {r : TokenKind × Nat} (h : hashToken? gs = some r) : r.2 ≤ gs.length := by
  cases gs with
  | nil => cases h
  | cons g gs =>
    have hone : 1 ≤ (g :: gs).length := by simp
    unfold hashToken? at h
    split at h
    case h_4 =>
      split_ifs at h with htail
      · cases gs with
        | nil => cases htail
        | cons g' gs =>
          cases h
          simp
      · cases h
        exact hone
    case h_6 => cases h
    all_goals
      cases h
      exact hone

theorem carries_atomOfWord (word : List Char) (place place' : Option Position) :
    Carries rest (fun _ => True) (atomOfWord word place) (atomOfWord word place') := by
  unfold atomOfWord
  split
  · cases namedChar? _ with
    | some c => exact ⟨rfl, trivial⟩
    | none => exact carries_malformed _ _
  · cases Number.parseChars word with
    | some n => exact ⟨rfl, trivial⟩
    | none =>
      simp only
      split_ifs
      · exact carries_malformed _ _
      · exact ⟨rfl, trivial⟩

theorem carries_plainWord (word : List Char) (place place' : Option Position) :
    Carries rest (fun r => r.2 ≤ gs.length)
      (match atomOfWord word place with
        | .ok kind => .ok (kind, 0)
        | .error e => .error e)
      (match atomOfWord word place' with
        | .ok kind => .ok (kind, 0)
        | .error e => .error e) := by
  have hcarries := @carries_atomOfWord rest word place place'
  cases hword : atomOfWord word place with
  | ok kind =>
    rw [hword] at hcarries
    rw [hcarries.1]
    exact ⟨rfl, Nat.zero_le _⟩
  | error e =>
    rw [hword] at hcarries
    exact hcarries.error fun e' hword' => by rw [hword']

theorem carries_classify (h : Extends rest gs hs) (hrest : LineEnds rest) (word : List Char)
    (place place' : Option Position) :
    Carries rest (fun r => r.2 ≤ gs.length) (classify word place gs) (classify word place' hs) := by
  have hbytes : peek hs = some '(' ↔ peek gs = some '(' := h.peek_eq_iff hrest (by decide)
  unfold classify
  simp only [hbytes]
  split_ifs with hdot htrue hfalse hhash hvu8 hchar
  · exact ⟨rfl, Nat.zero_le _⟩
  · exact ⟨rfl, Nat.zero_le _⟩
  · exact ⟨rfl, Nat.zero_le _⟩
  · rw [hashToken?_extends h hrest]
    cases hfound : hashToken? gs with
    | some found => exact ⟨rfl, hashToken?_count hfound⟩
    | none => exact carries_plainWord word place place'
  · refine ⟨rfl, ?_⟩
    cases gs with
    | nil => cases hvu8.2
    | cons g gs => simp
  · cases gs with
    | nil =>
      rintro (rfl | hfalse)
      · have hnil : hs = [] := by simpa [raw] using h.nil
        exact ⟨_, by rw [hnil], rfl⟩
      · cases hfalse
    | cons g gs =>
      obtain ⟨g', hs', rfl, hchar', -, -⟩ := h.cons
      exact ⟨by simp only [hchar'], by simp⟩
  · exact carries_plainWord word place place'

/-- How far a comment reaches: to the line end, which belongs to it. -/
def commentLength (gs : List Glyph) : Nat := (gs.takeWhile fun g => g.char ≠ '\n').length + 1

theorem commentLength_extends (h : Extends rest gs hs) (hrest : LineEnds rest) :
    commentLength hs = commentLength gs := by
  have hlen := @Extends.length_takeWhile rest gs hs h hrest (fun c => c ≠ '\n') (by decide)
  rw [commentLength, commentLength, hlen]

/-- The token of a quoted text. -/
theorem carries_quoted {make : List Char → TokenKind} {x y : Except ReadError (List Char × Nat)} :
    Carries rest (fun r => r.2 ≤ gs.length) x y →
    Carries rest (fun r => r.2 ≤ gs.length ∨ r = (none, commentLength gs))
      (match x with
        | .ok (cs, count) => .ok (some (make cs), count)
        | .error e => .error e)
      (match y with
        | .ok (cs, count) => .ok (some (make cs), count)
        | .error e => .error e) := by
  intro h
  cases x with
  | ok r =>
    obtain ⟨rfl, hle⟩ := h
    exact ⟨rfl, Or.inl hle⟩
  | error e => exact h.error fun e' hy => by rw [hy]

/-- A lexical unit that does not start a word carries over, and only a comment can reach beyond the
text. -/
theorem carries_delimiter (h : Extends rest gs hs) (hrest : LineEnds rest) (stop stop' : Position)
    (place place' : Option Position) (c : Char) :
    Carries rest (fun r => r.2 ≤ gs.length ∨ r = (none, commentLength gs))
      (delimiter stop place c gs) (delimiter stop' place' c hs) := by
  unfold delimiter
  split
  · exact ⟨rfl, Or.inl (Nat.zero_le _)⟩
  · exact ⟨by rw [← commentLength, commentLength_extends h hrest]; rfl, Or.inr rfl⟩
  · exact ⟨rfl, Or.inl (Nat.zero_le _)⟩
  · exact ⟨rfl, Or.inl (Nat.zero_le _)⟩
  · exact ⟨rfl, Or.inl (Nat.zero_le _)⟩
  · exact ⟨rfl, Or.inl (Nat.zero_le _)⟩
  · have hat : peek hs = some '@' ↔ peek gs = some '@' := h.peek_eq_iff hrest (by decide)
    simp only [hat]
    split_ifs with hsplice
    · refine ⟨rfl, Or.inl ?_⟩
      cases gs with
      | nil => cases hsplice
      | cons g gs => simp
    · exact ⟨rfl, Or.inl (Nat.zero_le _)⟩
  · exact carries_quoted
      (carries_quotedRest (fun _ _ h => carries_stringEscape h hrest stop stop') h)
  · exact carries_quoted
      (carries_quotedRest (fun _ _ h => carries_symbolEscape h hrest stop stop') h)
  · exact carries_malformed _ _

theorem wordRest_extends {g g' : Glyph} (hchar : g'.char = g.char) (h : Extends rest gs hs)
    (hrest : LineEnds rest) :
    (wordRest g' hs).map Glyph.char = (wordRest g gs).map Glyph.char := by
  unfold wordRest
  rw [hchar]
  split_ifs
  · exact h.takeWhile hrest (by decide)
  · rfl

theorem length_wordRest_le (g : Glyph) (gs : List Glyph) : (wordRest g gs).length ≤ gs.length := by
  unfold wordRest
  split_ifs
  · exact (List.takeWhile_prefix _).length_le
  · exact Nat.zero_le _

/-- What a lexical unit means carries over. -/
theorem carries_meaning (h : Extends rest gs hs) (hrest : LineEnds rest) (stop stop' : Position)
    (place place' : Option Position) (c : Char) {more more' : List Glyph}
    (hmore : more'.map Glyph.char = more.map Glyph.char) :
    Carries rest (fun r => r.2 ≤ gs.length ∨ r = (none, commentLength gs))
      (meaning stop place c more gs) (meaning stop' place' c more' hs) := by
  unfold meaning
  split_ifs with hname
  · have hcarries := carries_classify h hrest (c :: more.map Glyph.char) place place'
    rw [hmore]
    cases hclass : classify (c :: more.map Glyph.char) place gs with
    | ok r =>
      rw [hclass] at hcarries
      rw [hcarries.1]
      exact ⟨rfl, Or.inl hcarries.2⟩
    | error e =>
      rw [hclass] at hcarries
      exact hcarries.error fun e' hclass' => by rw [hclass']
  · exact carries_delimiter h hrest stop stop' place place' c

/-- The lexeme that starts a text and the one that starts its extension: they agree and leave the
rest of the text and its extension, or a comment at the end of the text also takes the line end
behind it. -/
def LexemeCarries (rest : Script) :
    Except ReadError (Option Token × List Glyph) → Except ReadError (Option Token × List Glyph) →
    Prop
  | .ok (token, gs), r =>
      (∃ token' hs, r = .ok (token', hs) ∧ token'.map Token.kind = token.map Token.kind ∧
        Extends rest gs hs) ∨
      (token = none ∧ gs = [] ∧ ∃ hs, raw hs = rest.tail ∧
        r = match headFault hs with
          | some f => malformedAt (.fault f) none
          | none => .ok (none, hs))
  | .error e, r => rest = [] ∨ e.isIncomplete = false →
      ∃ e', r = .error e' ∧ e'.isIncomplete = e.isIncomplete

theorem faultWithin_succ (gs : List Glyph) (n : Nat) :
    faultWithin gs (n + 1) = (faultWithin gs n).or (headFault (gs.drop (n + 1))) := by
  rw [faultWithin, faultWithin, List.take_add_one, List.findSome?_append]
  congr 1
  rw [headFault, List.head?_drop, List.getElem?_tail]
  cases gs[n + 1]? with
  | none => rfl
  | some g => cases hfault : g.fault <;> simp [hfault]

/-- No glyph is read beyond the last. -/
theorem faultWithin_length_succ (gs : List Glyph) :
    faultWithin gs (gs.length + 1) = faultWithin gs gs.length := by
  rw [faultWithin_succ, List.drop_eq_nil_iff.2 (Nat.le_succ _)]
  exact Option.or_none

theorem headFault_extends (h : Extends rest gs hs) (hrest : LineEnds rest) :
    headFault hs = headFault gs := by
  cases gs with
  | nil =>
    rcases hrest with rfl | ⟨more, rfl⟩
    · have hnil : hs = [] := by simpa [raw] using h.nil
      rw [hnil]
    · obtain ⟨g, hs', rfl, hg, -⟩ := List.map_eq_cons_iff.1 h.nil
      exact (Prod.mk.inj hg).2
  | cons g gs =>
    obtain ⟨g', hs', rfl, -, hfault, -⟩ := h.cons
    exact hfault

/-- A comment that ends with the text. -/
theorem carries_lastComment (h : Extends rest gs hs) (hrest : LineEnds rest)
    (hlast : commentLength gs = gs.length + 1) :
    LexemeCarries rest
      (match faultWithin gs (commentLength gs) with
        | some f => malformedAt (.fault f) none
        | none => .ok (none, gs.drop (commentLength gs)))
      (match faultWithin hs (commentLength gs) with
        | some f => malformedAt (.fault f) none
        | none => .ok (none, hs.drop (commentLength gs))) := by
  rw [hlast, faultWithin_length_succ, faultWithin_succ, h.faultWithin hrest le_rfl]
  cases faultWithin gs gs.length with
  | some f => exact fun _ => ⟨_, rfl, rfl⟩
  | none =>
    refine Or.inr ⟨rfl, List.drop_eq_nil_iff.2 (Nat.le_succ _), hs.drop (gs.length + 1), ?_, rfl⟩
    have hdrop : raw (hs.drop gs.length) = rest := by
      have hd := h.drop (le_refl gs.length)
      rw [List.drop_length] at hd
      exact hd.nil
    rw [← hdrop, raw, raw, ← List.map_tail, List.tail_drop]

theorem carries_lexeme {g g' : Glyph} (h : Extends rest (g :: gs) (g' :: hs))
    (hrest : LineEnds rest) (stop stop' : Position) :
    LexemeCarries rest (lexeme stop g gs) (lexeme stop' g' hs) := by
  obtain ⟨_, _, heq, hchar, -, h'⟩ := h.cons
  cases heq
  have hmore := wordRest_extends hchar h' hrest
  have hlen : (wordRest g' hs).length = (wordRest g gs).length := by
    simpa using congrArg List.length hmore
  have hle := length_wordRest_le g gs
  unfold lexeme
  simp only [hlen, hchar, h.faultWithin hrest (Nat.succ_le_succ hle)]
  cases faultWithin (g :: gs) ((wordRest g gs).length + 1) with
  | some f => exact fun _ => ⟨_, rfl, rfl⟩
  | none =>
    -- the word itself is the same, so that only what it means can look beyond the text
    have hafter := h'.drop hle
    have hcarries := carries_meaning hafter hrest stop stop' (some g.position) (some g'.position)
      g.char hmore
    simp only
    cases hmeaning : meaning stop (some g.position) g.char (wordRest g gs)
        (gs.drop (wordRest g gs).length) with
    | error e =>
      rw [hmeaning] at hcarries
      intro hcond
      obtain ⟨e', heq, he'⟩ := hcarries hcond
      exact ⟨e', by rw [heq], he'⟩
    | ok r =>
      obtain ⟨kind, count⟩ := r
      rw [hmeaning] at hcarries
      obtain ⟨heq, hcount⟩ := hcarries
      rw [heq]
      simp only
      generalize gs.drop (wordRest g gs).length = after at hafter hcount ⊢
      generalize hs.drop (wordRest g gs).length = after' at hafter ⊢
      by_cases hwithin : count ≤ after.length
      · rw [hafter.faultWithin hrest hwithin]
        cases faultWithin after count with
        | some f => exact fun _ => ⟨_, rfl, rfl⟩
        | none =>
          refine Or.inl ⟨_, _, rfl, ?_, hafter.drop hwithin⟩
          cases kind <;> rfl
      · rcases hcount with hle' | hcomment
        · exact absurd hle' hwithin
        · obtain ⟨rfl, rfl⟩ := Prod.mk.inj hcomment
          have hlast : commentLength after = after.length + 1 := by
            have := (List.takeWhile_prefix (l := after) fun g => g.char ≠ '\n').length_le
            unfold commentLength at hwithin ⊢
            omega
          exact carries_lastComment hafter hrest hlast

/-! ### All tokens -/

/-- What matters about the tokens of a text: their kinds, or whether more text may mend the
error. -/
def outline : Except ReadError (List Token) → Except Bool (List TokenKind)
  | .ok ts => .ok (ts.map Token.kind)
  | .error e => .error e.isIncomplete

/-- The outline of the tokens of `gs`, whose first glyph is still to be read. -/
def outlineFrom (stop : Position) (gs : List Glyph) : Except Bool (List TokenKind) :=
  match headFault gs with
  | some _ => .error false
  | none => outline (scan stop gs)

theorem outline_thenTokens (ts : List Token) (r : Except ReadError (List Token)) :
    outline (thenTokens ts r) = (outline r).map (ts.map Token.kind ++ ·) := by
  cases r with
  | error e => rfl
  | ok more => simp [thenTokens, outline, Except.map]

/-- A line end is passed when the glyph after it is read. -/
theorem outline_scan_lineEnd (stop : Position) {g : Glyph} (gs : List Glyph) (h : g.char = '\n') :
    outline (scan stop (g :: gs)) = outlineFrom stop gs := by
  rw [scan_lexeme stop gs (by rw [h]; decide)]
  have hword : isNameChar '\n' = false := by decide
  unfold lexeme outlineFrom
  simp only [wordRest, h, hword, Bool.false_eq_true, if_false, List.length_nil,
    faultWithin_cons_succ,
    faultWithin_zero, Option.or_none, meaning, delimiter]
  cases headFault gs with
  | some f => rfl
  | none => exact congrArg outline (thenTokens_nil _)

theorem outline_scan_space (stop : Position) {g : Glyph} (gs : List Glyph)
    (h : isSpace g.char = true) :
    outline (scan stop (g :: gs)) = outlineFrom stop gs := by
  rw [scan_space stop gs h, outlineFrom]
  cases headFault gs <;> rfl

/-- A character that starts nothing is refused, unless the one after it is at fault. -/
theorem outline_scan_illegal (stop : Position) {g : Glyph} (gs : List Glyph)
    (hspace : isSpace g.char = false) (hword : isNameChar g.char = false)
    (hc : g.char ∉ '\n' :: delimiters) : outline (scan stop (g :: gs)) = .error false := by
  have hdelimiter (place : Option Position) (gs : List Glyph) :
      delimiter stop place g.char gs = malformedAt (.illegalChar g.char) place := by
    unfold delimiter
    split
    case h_10 => rfl
    all_goals
      rename_i heq
      exact absurd (by rw [heq]; decide) hc
  rw [scan_lexeme stop gs hspace]
  unfold lexeme
  simp only [wordRest, hword, Bool.false_eq_true, if_false, meaning, hdelimiter]
  cases faultWithin (g :: gs) (([] : List Glyph).length + 1) <;> rfl

/-- How the outline for a text carries over to its extension, given the outline `after` of what
comes behind the line end. -/
def OutlineCarries (rest : Script) (after : Except Bool (List TokenKind)) :
    Except ReadError (List Token) → Except Bool (List TokenKind) → Prop
  | .ok ts, r => r = after.map (ts.map Token.kind ++ ·)
  | .error e, r => rest = [] ∨ e.isIncomplete = false → r = .error e.isIncomplete

theorem map_nil_append (r : Except Bool (List TokenKind)) :
    r.map (([] : List TokenKind) ++ ·) = r := by
  cases r <;> rfl

/-- Tokens in front carry over. -/
theorem OutlineCarries.thenTokens {after r : Except Bool (List TokenKind)}
    {x : Except ReadError (List Token)} (h : OutlineCarries rest after x r) {ts ts' : List Token}
    (hts : ts'.map Token.kind = ts.map Token.kind) :
    OutlineCarries rest after (thenTokens ts x) (r.map (ts'.map Token.kind ++ ·)) := by
  cases x with
  | ok more =>
    have hr : r = after.map (more.map Token.kind ++ ·) := h
    rw [hr, hts]
    cases after with
    | error e => rfl
    | ok ks => simp [OutlineCarries, Reader.thenTokens, Except.map]
  | error e =>
    intro hcond
    rw [h hcond]
    rfl

/-- **All tokens carry over.**  The tokens of a text are those that start its extension, and then
come those behind the line end. -/
theorem outlineCarries_scan (after : Except Bool (List TokenKind)) (hrest : LineEnds rest)
    (hafter : ∀ stop hs, raw hs = rest.tail → outlineFrom stop hs = after) (h : Extends rest gs hs)
    (stop stop' : Position) :
    OutlineCarries rest after (scan stop gs) (outline (scan stop' hs)) := by
  induction hn : gs.length using Nat.strongRecOn generalizing gs hs with
  | _ n ih =>
    cases gs with
    | nil =>
      rw [scan_nil]
      show outline (scan stop' hs) = after.map (([] : List TokenKind) ++ ·)
      rw [map_nil_append]
      -- the extension starts with the line end, or there is none
      rcases hrest with rfl | ⟨more, rfl⟩
      · have hnil : hs = [] := by simpa [raw] using h.nil
        rw [← hafter stop' [] rfl, hnil]
        rfl
      · obtain ⟨g, hs', rfl, hg, hhs'⟩ := List.map_eq_cons_iff.1 h.nil
        rw [← hafter stop' hs' hhs', outline_scan_lineEnd stop' hs' (Prod.mk.inj hg).1]
    | cons g gs =>
      rw [List.length_cons] at hn
      obtain ⟨g', hs', rfl, hchar, -, h'⟩ := h.cons
      by_cases hspace : isSpace g.char = true
      · rw [outline_scan_space stop' hs' (by rw [hchar, hspace]), scan_space stop gs hspace,
          outlineFrom,
          headFault_extends h' hrest]
        cases headFault gs with
        | some f => exact fun _ => rfl
        | none => exact ih gs.length (by omega) h' rfl
      · rw [Bool.not_eq_true] at hspace
        have hlexeme := carries_lexeme h hrest stop stop'
        rw [scan_lexeme stop gs hspace, scan_lexeme stop' hs' (by rw [hchar, hspace])]
        cases hread : lexeme stop g gs with
        | error e =>
          rw [hread] at hlexeme
          intro hcond
          obtain ⟨e', heq, he'⟩ := hlexeme hcond
          rw [heq, ← he']
          rfl
        | ok r =>
          obtain ⟨token, gs₂⟩ := r
          rw [hread] at hlexeme
          rcases hlexeme with ⟨token', hs₂, heq, htoken, h₂⟩ | ⟨rfl, rfl, hs₂, hhs₂, heq⟩
          · have hlen := length_le_of_lexeme hread
            rw [heq]
            simp only
            rw [outline_thenTokens]
            refine (ih gs₂.length (by omega) h₂ rfl).thenTokens ?_
            cases token <;> cases token' <;> simp_all
          · -- the comment takes the line end, and the rest of the text starts behind it
            rw [heq]
            show outline _ = after.map (([] : List TokenKind) ++ ·)
            rw [map_nil_append, ← hafter stop' hs₂ hhs₂, outlineFrom]
            cases headFault hs₂ with
            | some f => rfl
            | none => simp

end Extended

/-! ### Texts and line ends -/

/-- The kinds of the tokens of a text, or whether more text may mend the error.  A byte-order mark
in front is not skipped. -/
def kindsOf (s : Script) : Except Bool (List TokenKind) :=
  outlineFrom ⟨1, 1⟩ (locate s ⟨1, 1⟩ []).glyphs

/-- Where the glyphs stand does not matter. -/
theorem outlineFrom_eq (stop : Position) (gs : List Glyph) :
    outlineFrom stop gs = kindsOf (raw gs) := by
  have hraw : Extends [] gs (locate (raw gs) ⟨1, 1⟩ []).glyphs := by
    rw [Extends, raw_locate]
    simp [raw]
  have hcarries := outlineCarries_scan (.ok []) (Or.inl rfl)
    (fun _ hs hnil => by
      have : hs = [] := by simpa [raw] using hnil
      rw [this]
      rfl) hraw stop ⟨1, 1⟩
  rw [kindsOf, outlineFrom, outlineFrom, headFault_extends hraw (Or.inl rfl)]
  cases headFault gs with
  | some f => rfl
  | none =>
    show outline (scan stop gs) = outline (scan ⟨1, 1⟩ (locate (raw gs) ⟨1, 1⟩ []).glyphs)
    cases hscan : scan stop gs with
    | ok ts =>
      rw [hscan] at hcarries
      have heq : outline _ = (Except.ok []).map (ts.map Token.kind ++ ·) := hcarries
      rw [heq]
      simp [outline, Except.map]
    | error e =>
      rw [hscan] at hcarries
      exact (hcarries (Or.inl rfl)).symm

theorem kindsOf_lineEnd (p q : Script) :
    match kindsOf p with
    | .ok ks => kindsOf (p ++ Script.mark '\n' :: q) = (kindsOf q).map (ks ++ ·)
    | .error incomplete =>
      incomplete = false → kindsOf (p ++ Script.mark '\n' :: q) = .error false := by
  have hrest : LineEnds (Script.mark '\n' :: q) := Or.inr ⟨q, rfl⟩
  have hextends : Extends (Script.mark '\n' :: q) (locate p ⟨1, 1⟩ []).glyphs
      (locate (p ++ Script.mark '\n' :: q) ⟨1, 1⟩ []).glyphs := by
    rw [Extends, raw_locate, raw_locate]
    rfl
  have hcarries := outlineCarries_scan (kindsOf q) hrest
    (fun stop hs hhs => by rw [outlineFrom_eq, hhs]; rfl) hextends ⟨1, 1⟩ ⟨1, 1⟩
  rw [kindsOf, kindsOf, outlineFrom, outlineFrom, headFault_extends hextends hrest]
  cases headFault (locate p ⟨1, 1⟩ []).glyphs with
  | some f => exact fun _ => rfl
  | none =>
    simp only
    cases hscan : scan ⟨1, 1⟩ (locate p ⟨1, 1⟩ []).glyphs with
    | ok ts =>
      rw [hscan] at hcarries
      exact hcarries
    | error e =>
      rw [hscan] at hcarries
      intro hfalse
      rw [hcarries (Or.inr hfalse), hfalse]

/-- **The tokens before and after a line end.**  If a text has tokens, those of a text behind a line
end follow them. -/
theorem kindsOf_append {p : Script} {ks : List TokenKind} (h : kindsOf p = .ok ks) (q : Script) :
    kindsOf (p ++ Script.mark '\n' :: q) = (kindsOf q).map (ks ++ ·) := by
  have hline := kindsOf_lineEnd p q
  rw [h] at hline
  exact hline

/-- What is malformed stays malformed, whatever follows. -/
theorem kindsOf_append_malformed {p : Script} (h : kindsOf p = .error false) (q : Script) :
    kindsOf (p ++ Script.mark '\n' :: q) = .error false := by
  have hline := kindsOf_lineEnd p q
  rw [h] at hline
  exact hline rfl

/-- The first character of a text. -/
theorem kindsOf_cons (c : Char) (s : Script) : ∃ g gs, g.char = c ∧ raw gs = s ∧
    kindsOf ((c, none) :: s) = outline (scan ⟨1, 1⟩ (g :: gs)) := by
  have hraw : raw (⟨c, ⟨1, 1⟩, none⟩ :: (locate s ⟨1, 1⟩ []).glyphs) = (c, none) :: s :=
    congrArg _ (raw_locate s ⟨1, 1⟩ [])
  refine ⟨⟨c, ⟨1, 1⟩, none⟩, (locate s ⟨1, 1⟩ []).glyphs, rfl, raw_locate s ⟨1, 1⟩ [], ?_⟩
  rw [← hraw, ← outlineFrom_eq ⟨1, 1⟩]
  rfl

/-- A character at fault is refused. -/
theorem kindsOf_fault (c : Char) (f : Fault) (s : Script) :
    kindsOf ((c, some f) :: s) = .error false := by
  have hraw : raw (⟨c, ⟨1, 1⟩, some f⟩ :: (locate s ⟨1, 1⟩ []).glyphs) = (c, some f) :: s :=
    congrArg _ (raw_locate s ⟨1, 1⟩ [])
  rw [← hraw, ← outlineFrom_eq ⟨1, 1⟩]
  rfl

/-- A character that starts nothing is refused. -/
theorem kindsOf_illegal {c : Char} (fault : Option Fault) (s : Script) (hspace : isSpace c = false)
    (hword : isNameChar c = false) (hc : c ∉ '\n' :: delimiters) :
    kindsOf ((c, fault) :: s) = .error false := by
  cases fault with
  | some f => exact kindsOf_fault c f s
  | none =>
    obtain ⟨g, gs, rfl, -, hkinds⟩ := kindsOf_cons c s
    rw [hkinds, outline_scan_illegal _ gs hspace hword hc]

theorem kindsOf_blank_cons {c : Char} (h : isSpace c = true ∨ c = '\n') (s : Script) :
    kindsOf ((c, none) :: s) = kindsOf s := by
  obtain ⟨g, gs, rfl, rfl, hkinds⟩ := kindsOf_cons c s
  rw [hkinds]
  rcases h with hspace | hline
  · rw [outline_scan_space _ gs hspace, outlineFrom_eq]
  · rw [outline_scan_lineEnd _ gs hline, outlineFrom_eq]

/-- A byte-order mark starts no token. -/
theorem kindsOf_byteOrderMark (fault : Option Fault) (s : Script) :
    kindsOf ((byteOrderMark, fault) :: s) = .error false :=
  kindsOf_illegal fault s (by decide +kernel) (by decide +kernel) (by decide +kernel)

/-- Blank characters form no tokens, and some of them are refused. -/
theorem kindsOf_blank {s : Script} (h : ∀ p ∈ s, Text.isBlank p.1 = true) :
    kindsOf s = .ok [] ∨ kindsOf s = .error false := by
  induction s with
  | nil => exact Or.inl rfl
  | cons p s ih =>
    obtain ⟨c, fault⟩ := p
    have hblank : Text.isBlank c = true := h (c, fault) List.mem_cons_self
    have hs := ih fun p hp => h p (List.mem_cons_of_mem _ hp)
    by_cases hpass : isSpace c = true ∨ c = '\n'
    · cases fault with
      | some f => exact Or.inr (kindsOf_fault c f s)
      | none => rwa [kindsOf_blank_cons hpass]
    · rw [not_or, Bool.not_eq_true] at hpass
      have hall : delimiters.all (fun c => !Text.isBlank c) = true := by decide +kernel
      have hdelimiters : c ∉ delimiters := by
        intro hc
        simpa [hblank] using List.all_eq_true.1 hall c hc
      refine Or.inr (kindsOf_illegal fault s hpass.1 ?_ ?_)
      · simp [isNameChar, hblank]
      · simp [hpass.2, hdelimiters]

/-- The tokens of a source text. -/
theorem outline_tokens (s : Script) : outline (tokens (Source.ofScript s)) = kindsOf s.content := by
  rw [← raw_ofScript, ← outlineFrom_eq (Source.ofScript s).stop, tokens_eq_scan, outlineFrom]
  cases headFault (Source.ofScript s).glyphs <;> rfl

theorem Script.content_append (p q : Script) :
    Script.content (p ++ Script.mark '\n' :: q) = p.content ++ Script.mark '\n' :: q := by
  match p with
  | [] =>
    have hne : '\n' ≠ byteOrderMark := by decide
    simp [Script.content, Script.mark, hne]
  | (c, fault) :: p =>
    show (if c = byteOrderMark then _ else _) = (if c = byteOrderMark then _ else _) ++ _
    split_ifs <;> rfl

end Scheme.Reader
