import Mathlib
import Scheme.Proofs.Boundary
import Scheme.Proofs.Grammar

/-!
# Reading across a line end

A text that reads well can be followed by a line end and another text: the data of the second follow
those of the first.  A text that is malformed stays malformed, whatever follows it.  So only the
error of a text that ends inside a datum leaves open what comes next.

* `readWith_append`: the tokens of a second text;
* `readWith_unplaced`: where tokens stand does not matter;
* `dataOf`: the data of a text, up to the texts of errors;
* `dataOf_append`, `dataOf_ne_malformed`: two texts with a line end between them.
-/

namespace Scheme.Reader

/-! ### More tokens -/

/-- What becomes of reading some tokens when the tokens `us` follow. -/
def Continued (us : List Token) :
    Except ReadError Sexp × List Token → Except ReadError Sexp × List Token → Prop
  | (.ok d, rest), r => r = (.ok d, rest ++ us)
  | (.error .endOfInput, _), r => r = read us
  | (.error (.malformed fault), rest), r => r = (.error (.malformed fault), rest ++ us)
  | (.error _, _), _ => True

theorem readWith_append (us : List Token) (stack : List Pending) (ts : List Token) :
    Continued us (readWith stack ts) (readWith stack (ts ++ us)) := by
  -- every token takes the same turn, whatever follows it
  induction ts generalizing stack with
  | nil =>
    cases stack with
    | nil => rfl
    | cons => trivial
  | cons t rest ih =>
    rw [List.cons_append, readWith_cons, readWith_cons]
    cases hturn : turn t stack with
    | refused e taken =>
      obtain ⟨fault, rfl⟩ := turn_refused hturn
      cases taken <;> rfl
    | goOn p =>
      cases p with
      | done d => rfl
      | more stack' => exact ih stack'

/-! ### Places -/

/-- A token without its place. -/
def Token.unplaced (t : Token) : Token := ⟨t.kind, none⟩

/-- Something open without its place. -/
def Pending.unplaced : Pending → Pending
  | .bytes _ items => .bytes none items
  | p => p

/-- What a complete datum leads to, without places. -/
def Progress.unplaced : Progress → Progress
  | .done d => .done d
  | .more stack => .more (stack.map Pending.unplaced)

theorem complete_unplaced (d : Sexp) (stack : List Pending) :
    complete d (stack.map Pending.unplaced) = (complete d stack).unplaced := by
  induction stack generalizing d with
  | nil => rfl
  | cons p stack ih =>
    cases p with
    | quotation keyword => exact ih _
    | _ => rfl

theorem isClosing_unplaced (stack : List Pending) :
    isClosing (stack.map Pending.unplaced) = isClosing stack := by
  match stack with
  | [] => rfl
  | p :: stack => cases p <;> rfl

/-- Whether items are bytes does not depend on where the bytevector starts. -/
theorem bytesOf_unplaced (place place' : Option Position) (items : List Sexp) :
    (∃ data, bytesOf place items = .ok data ∧ bytesOf place' items = .ok data) ∨
    (∃ fault fault', bytesOf place items = .error (.malformed fault) ∧
      bytesOf place' items = .error (.malformed fault')) := by
  cases h : bytesOf place items with
  | ok data =>
    have h' : bytesOf place' items = .ok data :=
      (bytesOf_eq_ok_iff ..).2 ((bytesOf_eq_ok_iff ..).1 h)
    exact Or.inl ⟨data, rfl, h'⟩
  | error e =>
    obtain ⟨fault, rfl⟩ := bytesOf_error h
    cases h' : bytesOf place' items with
    | ok data =>
      have hok : bytesOf place items = .ok data :=
        (bytesOf_eq_ok_iff ..).2 ((bytesOf_eq_ok_iff ..).1 h')
      rw [hok] at h
      cases h
    | error e =>
      obtain ⟨fault', rfl⟩ := bytesOf_error h'
      exact Or.inr ⟨fault, fault', rfl, rfl⟩

theorem closeTop_unplaced (place place' : Option Position) (stack : List Pending) :
    (∃ d outer, closeTop place stack = .ok (d, outer) ∧
      closeTop place' (stack.map Pending.unplaced) = .ok (d, outer.map Pending.unplaced)) ∨
    (∃ fault fault', closeTop place stack = .error (.malformed fault) ∧
      closeTop place' (stack.map Pending.unplaced) = .error (.malformed fault')) := by
  match stack with
  | .list items :: stack => exact Or.inl ⟨_, _, rfl, rfl⟩
  | .closing items tail :: stack => exact Or.inl ⟨_, _, rfl, rfl⟩
  | .vector items :: stack => exact Or.inl ⟨_, _, rfl, rfl⟩
  | .bytes start items :: stack =>
    simp only [List.map_cons, Pending.unplaced, closeTop]
    rcases bytesOf_unplaced start none items.reverse with ⟨data, h, h'⟩ | ⟨fault, fault', h, h'⟩
    · exact Or.inl ⟨.bytes () data, stack, by rw [h], by rw [h']⟩
    · exact Or.inr ⟨fault, fault', by rw [h], by rw [h']⟩
  | [] | .dotted _ :: _ | .quotation _ :: _ | .comment :: _ => exact Or.inr ⟨_, _, rfl, rfl⟩

/-- What is refused is refused without its place, and what is taken is taken. -/
theorem turn_unplaced (t : Token) (stack : List Pending) :
    (∃ p, turn t stack = .goOn p ∧
      turn t.unplaced (stack.map Pending.unplaced) = .goOn p.unplaced) ∨
    (∃ fault fault' taken, turn t stack = .refused (.malformed fault) taken ∧
      turn t.unplaced (stack.map Pending.unplaced) = .refused (.malformed fault') taken) := by
  obtain ⟨kind, place⟩ := t
  cases kind with
  | datumComment => exact Or.inl ⟨_, rfl, rfl⟩
  | close =>
    simp only [turn, Token.unplaced]
    obtain ⟨d, outer, h, h'⟩ | ⟨fault, fault', h, h'⟩ := closeTop_unplaced place none stack
    · rw [h, h']
      exact Or.inl ⟨_, rfl, congrArg Turn.goOn (complete_unplaced d outer)⟩
    · rw [h, h']
      exact Or.inr ⟨fault, fault', true, rfl, rfl⟩
  | dot =>
    match stack with
    | .list (_ :: _) :: _ => exact Or.inl ⟨_, rfl, rfl⟩
    | .list [] :: _ | [] | .dotted _ :: _ | .closing .. :: _ | .vector _ :: _ | .bytes .. :: _
    | .quotation _ :: _ | .comment :: _ => exact Or.inr ⟨_, _, _, rfl, rfl⟩
  | atom d =>
    simp only [turn, Token.unplaced, isClosing_unplaced]
    split_ifs
    · exact Or.inr ⟨_, _, _, rfl, rfl⟩
    · exact Or.inl ⟨_, rfl, congrArg Turn.goOn (complete_unplaced d stack)⟩
  | _ =>
    simp only [turn, Token.unplaced, isClosing_unplaced]
    split_ifs
    · exact Or.inr ⟨_, _, _, rfl, rfl⟩
    · exact Or.inl ⟨_, rfl, rfl⟩

/-- The result of reading tokens without their places. -/
def Unplaced : Except ReadError Sexp × List Token → Except ReadError Sexp × List Token → Prop
  | (.error (.malformed _), rest), r =>
      ∃ fault, r = (.error (.malformed fault), rest.map Token.unplaced)
  | (x, rest), r => r = (x, rest.map Token.unplaced)

/-- Where tokens stand only matters for the texts of errors. -/
theorem readWith_unplaced (stack : List Pending) (ts : List Token) :
    Unplaced (readWith stack ts)
      (readWith (stack.map Pending.unplaced) (ts.map Token.unplaced)) := by
  -- only a malformed text tells where it is, so the outcomes differ in the fault alone
  induction ts generalizing stack with
  | nil => cases stack <;> rfl
  | cons t rest ih =>
    rw [List.map_cons, readWith_cons, readWith_cons]
    obtain ⟨p, h, h'⟩ | ⟨fault, fault', taken, h, h'⟩ := turn_unplaced t stack
    · rw [h, h']
      cases p with
      | done d => rfl
      | more stack' => exact ih stack'
    · rw [h, h']
      cases taken <;> exact ⟨fault', rfl⟩

/-! ### All data of a list of tokens -/

/-- All data that tokens form. -/
def readTokens (ts : List Token) : Except ReadError (List Sexp) := readAllFrom (ts.length + 1) ts

/-- A datum takes at least one token. -/
theorem length_lt_of_read {ts rest : List Token} {d : Sexp} (h : read ts = (.ok d, rest)) :
    rest.length < ts.length := by
  obtain ⟨pre, rfl, x, hx, -⟩ : ∃ pre, ts = pre ++ rest ∧
      ∃ x : Derivation .datum, x.kinds = pre.map Token.kind ∧ Derives x d := by
    have htraced : Traced [] ts (read ts) := traced_readWith (.nil .noComments)
    rw [h] at htraced
    exact htraced
  have hpre : pre ≠ [] := by
    rintro rfl
    cases x with
    | datum cs c =>
      obtain ⟨k, ks, hk, -⟩ := exists_kinds_core c
      simp [Derivation.kinds, hk] at hx
  have hpos := List.length_pos_iff.2 hpre
  rw [List.length_append]
  omega

/-- The data do not depend on the number of rounds, if there are enough. -/
theorem readAllFrom_eq {fuel : Nat} {ts : List Token} (h : ts.length < fuel) :
    readAllFrom fuel ts = readTokens ts := by
  induction hn : ts.length using Nat.strongRecOn generalizing ts fuel with
  | _ n ih =>
    cases fuel with
    | zero => omega
    | succ fuel =>
      rw [readTokens, readAllFrom, readAllFrom]
      split
      · rfl
      · rfl
      · rename_i d rest hread
        have hlt := length_lt_of_read hread
        -- either side has rounds left for the rest
        rw [ih rest.length (by omega) (by omega) rfl, ih rest.length (by omega) (by omega) rfl]

theorem readTokens_eq (ts : List Token) :
    readTokens ts =
      match read ts with
      | (.error .endOfInput, _) => .ok []
      | (.error e, _) => .error e
      | (.ok d, rest) => (readTokens rest).map (d :: ·) := by
  rw [readTokens, readAllFrom]
  cases hread : read ts with
  | mk x rest =>
    match x with
    | .error .endOfInput | .error .incomplete | .error .incompleteChar | .error (.malformed _) =>
      rfl
    | .ok d =>
      simp only
      rw [readAllFrom_eq (length_lt_of_read hread)]
      cases readTokens rest <;> rfl

theorem readTokens_cons {ts rest : List Token} {d : Sexp} (h : read ts = (.ok d, rest)) :
    readTokens ts = (readTokens rest).map (d :: ·) := by
  rw [readTokens_eq, h]

/-- The data of more tokens follow. -/
theorem readTokens_append {ts : List Token} {ds : List Sexp} (h : readTokens ts = .ok ds)
    (us : List Token) : readTokens (ts ++ us) = (readTokens us).map (ds ++ ·) := by
  induction hn : ts.length using Nat.strongRecOn generalizing ts ds with
  | _ n ih =>
    have hcontinued : Continued us (read ts) (read (ts ++ us)) := readWith_append us [] ts
    rw [readTokens_eq] at h
    split at h
    · rename_i rest hread
      rw [hread] at hcontinued
      cases h
      -- nothing but comments is left, so the first datum of `us` is the next
      have hsame : read (ts ++ us) = read us := hcontinued
      rw [readTokens_eq, hsame, ← readTokens_eq]
      cases readTokens us <;> rfl
    · cases h
    · rename_i d rest hread
      rw [hread] at hcontinued
      have hlt := length_lt_of_read hread
      have hsame : read (ts ++ us) = (.ok d, rest ++ us) := hcontinued
      cases hrest : readTokens rest with
      | error e =>
        rw [hrest] at h
        cases h
      | ok more =>
        rw [hrest] at h
        cases h
        rw [readTokens_cons hsame, ih rest.length (by omega) hrest rfl]
        cases readTokens us <;> rfl

/-- Tokens that are malformed stay malformed. -/
theorem readTokens_append_malformed {ts : List Token} {e : ReadError} (h : readTokens ts = .error e)
    (he : e.isIncomplete = false) (us : List Token) : readTokens (ts ++ us) = .error e := by
  induction hn : ts.length using Nat.strongRecOn generalizing ts with
  | _ n ih =>
    have hcontinued : Continued us (read ts) (read (ts ++ us)) := readWith_append us [] ts
    rw [readTokens_eq] at h
    split at h
    · cases h
    · rename_i e rest hne hread
      cases h
      rw [hread] at hcontinued
      match e with
      | .endOfInput => exact absurd rfl hne
      | .incomplete | .incompleteChar => cases he
      | .malformed fault =>
        have hsame : read (ts ++ us) = (.error (.malformed fault), rest ++ us) := hcontinued
        rw [readTokens_eq, hsame]
    · rename_i d rest hread
      rw [hread] at hcontinued
      have hlt := length_lt_of_read hread
      have hsame : read (ts ++ us) = (.ok d, rest ++ us) := hcontinued
      cases hrest : readTokens rest with
      | ok more =>
        rw [hrest] at h
        cases h
      | error e =>
        rw [hrest] at h
        cases h
        rw [readTokens_cons hsame, ih rest.length (by omega) hrest rfl]
        rfl

/-- Where tokens stand does not matter for the data. -/
theorem readTokens_unplaced (ts : List Token) :
    (readTokens (ts.map Token.unplaced)).mapError ReadError.isIncomplete =
      (readTokens ts).mapError ReadError.isIncomplete := by
  induction hn : ts.length using Nat.strongRecOn generalizing ts with
  | _ n ih =>
    have hunplaced : Unplaced (read ts) (read (ts.map Token.unplaced)) := readWith_unplaced [] ts
    rw [readTokens_eq, readTokens_eq]
    cases hread : read ts with
    | mk x rest =>
      rw [hread] at hunplaced
      match x with
      | .error (.malformed _) =>
        obtain ⟨fault, hsame⟩ := hunplaced
        rw [hsame]
        rfl
      | .error .endOfInput | .error .incomplete | .error .incompleteChar =>
        have hsame : read (ts.map Token.unplaced) = _ := hunplaced
        rw [hsame]
      | .ok d =>
        have hlt := length_lt_of_read hread
        have hsame : read (ts.map Token.unplaced) = _ := hunplaced
        rw [hsame]
        have hrest := ih rest.length (by omega) rest rfl
        show ((readTokens (rest.map Token.unplaced)).map _).mapError _ =
          ((readTokens rest).map _).mapError _
        cases h : readTokens rest <;> cases h' : readTokens (rest.map Token.unplaced) <;>
          simp_all [Except.map, Except.mapError]

/-! ### All data of a text -/

/-- The data that tokens of the given kinds form, or whether more text may mend the error. -/
def readKinds (ks : List TokenKind) : Except Bool (List Sexp) :=
  (readTokens (ks.map fun k => ⟨k, none⟩)).mapError ReadError.isIncomplete

theorem readTokens_kinds (ts : List Token) :
    (readTokens ts).mapError ReadError.isIncomplete = readKinds (ts.map Token.kind) := by
  rw [readKinds, ← readTokens_unplaced, List.map_map]
  rfl

theorem readKinds_append {ks : List TokenKind} {ds : List Sexp} (h : readKinds ks = .ok ds)
    (ls : List TokenKind) : readKinds (ks ++ ls) = (readKinds ls).map (ds ++ ·) := by
  unfold readKinds at h ⊢
  cases hks : readTokens (ks.map fun k => ⟨k, none⟩) with
  | error e =>
    rw [hks] at h
    cases h
  | ok data =>
    rw [hks] at h
    cases h
    rw [List.map_append, readTokens_append hks]
    cases readTokens (ls.map fun k => ⟨k, none⟩) <;> rfl

theorem readKinds_append_malformed {ks : List TokenKind} (h : readKinds ks = .error false)
    (ls : List TokenKind) : readKinds (ks ++ ls) = .error false := by
  unfold readKinds at h ⊢
  cases hks : readTokens (ks.map fun k => ⟨k, none⟩) with
  | ok data =>
    rw [hks] at h
    cases h
  | error e =>
    rw [hks] at h
    have he : e.isIncomplete = false := Except.error.inj h
    rw [List.map_append, readTokens_append_malformed hks he]
    exact congrArg Except.error he

/-- The data of a text, or whether more text may mend the error.  A byte-order mark in front is not
skipped. -/
def dataOf (s : Script) : Except Bool (List Sexp) := (kindsOf s).bind readKinds

theorem readAll_ofScript (s : Script) :
    (readAll (Source.ofScript s)).mapError ReadError.isIncomplete = dataOf s.content := by
  rw [dataOf, ← outline_tokens, readAll]
  cases tokens (Source.ofScript s) with
  | error e => rfl
  | ok ts => exact readTokens_kinds ts

/-- **The data before and after a line end.** -/
theorem dataOf_append {p : Script} {ds : List Sexp} (h : dataOf p = .ok ds) (q : Script) :
    dataOf (p ++ Script.mark '\n' :: q) = (dataOf q).map (ds ++ ·) := by
  unfold dataOf at h ⊢
  cases hp : kindsOf p with
  | error e =>
    rw [hp] at h
    cases h
  | ok ks =>
    rw [hp] at h
    rw [kindsOf_append hp]
    cases kindsOf q with
    | error e => rfl
    | ok ls => exact readKinds_append h ls

/-- **No good text starts with a malformed one.** -/
theorem dataOf_ne_malformed {p q : Script} {ds : List Sexp}
    (h : dataOf (p ++ Script.mark '\n' :: q) = .ok ds) : dataOf p ≠ .error false := by
  intro hmalformed
  unfold dataOf at h hmalformed
  cases hp : kindsOf p with
  | error e =>
    rw [hp] at hmalformed
    cases hmalformed
    rw [kindsOf_append_malformed hp] at h
    cases h
  | ok ks =>
    rw [hp] at hmalformed
    rw [kindsOf_append hp] at h
    cases hq : kindsOf q with
    | error e =>
      rw [hq] at h
      cases h
    | ok ls =>
      rw [hq] at h
      have hsame : readKinds (ks ++ ls) = .ok ds := h
      rw [readKinds_append_malformed hmalformed] at hsame
      cases hsame

/-- A byte-order mark is accepted in front of a text only. -/
theorem content_of_dataOf {s : Script} {ds : List Sexp} (h : dataOf s = .ok ds) :
    s.content = s := by
  match s with
  | [] => rfl
  | (c, fault) :: s =>
    refine if_neg ?_
    rintro rfl
    rw [dataOf, kindsOf_byteOrderMark] at h
    cases h

end Scheme.Reader
