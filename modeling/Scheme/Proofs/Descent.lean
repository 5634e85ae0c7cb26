import Mathlib
import Scheme.Proofs.Grammar

/-!
# Reading by descent

Reading can also be told by procedures that call each other: one for the comments in front, one for
a datum, a loop for the items of a list, a loop for the items of a vector or bytevector, and so on.
Each of them ends with a result and leaves tokens, after an error as well.  The rules say what a
procedure does next, and not that it ever ends: a loop goes round again from where an item has been
read, and a dot at the start of a list is refused where it stands.

* `Descends`: the rules;
* `Agrees`: a procedure and the stack come to the same, with one lemma for each way to go on, and
  `readWith_of_descends`: with a stack of what is open, reading comes to what the procedures come
  to;
* `takes_of_descends`: what a procedure leaves comes last among its tokens, and a datum takes one at
  least;
* `exists_descends`: every procedure ends;
* `call_iff_read`: reading the next datum is one call.
-/

namespace Scheme.Reader

/-! ### The rules -/

/-- What collects items up to a closing parenthesis: a list, which may have a dot, or plain
items. -/
inductive Collector where
  | list
  | items

namespace Collector

/-- What collected items become. -/
abbrev Result : Collector → Type
  | .list => Sexp
  | .items => List Sexp

/-- What the items found up to a closing parenthesis become. -/
def finish : (c : Collector) → List Sexp → c.Result
  | .list, found => Sexp.ofList found .nil
  | .items, found => found

/-- An item is read where a token of this kind comes next. -/
def GoesOn (c : Collector) (k : TokenKind) : Prop := k ≠ .close ∧ (c = .list → k ≠ .dot)

end Collector

/-- The parts of reading that start with comments. -/
inductive Part where
  /-- The next datum of all, if there is one. -/
  | next
  /-- A datum that has to come. -/
  | datum
  /-- Further items, after those that have been found. -/
  | collect (c : Collector) (found : List Sexp)
  /-- The closing parenthesis after the tail of a list. -/
  | closing (found : List Sexp) (tail : Sexp)

/-- What a part comes to. -/
abbrev Part.Result : Part → Type
  | .next => Sexp
  | .datum => Sexp
  | .collect c _ => c.Result
  | .closing .. => Sexp

/-- The procedures of reading: passing comments, and a part with the comments in front or after
them. -/
inductive Procedure where
  | comments
  | start (p : Part)
  | run (p : Part)

/-- What a procedure comes to. -/
abbrev Procedure.Result : Procedure → Type
  | .comments => Unit
  | .start p => p.Result
  | .run p => p.Result

/-- No comment stands in front. -/
def Plain (ts : List Token) : Prop := ∀ t us, ts = t :: us → t.kind ≠ .datumComment

/-- The procedure, called with some tokens, ends with a result and leaves some of the tokens. -/
inductive Descends :
    (p : Procedure) → List Token → Except ReadError p.Result → List Token → Prop where
  | plain {ts : List Token} (h : Plain ts) : Descends .comments ts (.ok ()) ts
  | comment {t : Token} {ts us rest : List Token} {d : Sexp} {r : Except ReadError Unit}
      (ht : t.kind = .datumComment) (hd : Descends (.start .datum) ts (.ok d) us)
      (hc : Descends .comments us r rest) : Descends .comments (t :: ts) r rest
  | badComment {t : Token} {ts rest : List Token} {e : ReadError} (ht : t.kind = .datumComment)
      (hd : Descends (.start .datum) ts (.error e) rest) :
      Descends .comments (t :: ts) (.error e) rest
  | skip {p : Part} {ts us rest : List Token} {r : Except ReadError p.Result}
      (hc : Descends .comments ts (.ok ()) us) (hp : Descends (.run p) us r rest) :
      Descends (.start p) ts r rest
  | badSkip {p : Part} {ts rest : List Token} {e : ReadError}
      (hc : Descends .comments ts (.error e) rest) :
      Descends (.start p) ts (.error e) rest
  | noneLeft : Descends (.run .next) [] (.error .endOfInput) []
  | ended {p : Part} (hp : p ≠ .next) : Descends (.run p) [] (.error .incomplete) []
  | next {t : Token} {ts rest : List Token} {r : Except ReadError Sexp}
      (h : Descends (.start .datum) (t :: ts) r rest) : Descends (.run .next) (t :: ts) r rest
  -- a datum
  | atom {t : Token} {ts : List Token} {d : Sexp} (ht : t.kind = .atom d) :
      Descends (.run .datum) (t :: ts) (.ok d) ts
  | strayClose {t : Token} {ts : List Token} (ht : t.kind = .close) :
      Descends (.run .datum) (t :: ts) (malformedAt .unexpectedClose t.place) ts
  | strayDot {t : Token} {ts : List Token} (ht : t.kind = .dot) :
      Descends (.run .datum) (t :: ts) (malformedAt .unexpectedDot t.place) ts
  | quotation {t : Token} {ts rest : List Token} {keyword : String} {r : Except ReadError Sexp}
      (ht : t.kind = .quotation keyword) (h : Descends (.start .datum) ts r rest) :
      Descends (.run .datum) (t :: ts) (r.map fun d => Sexp.ofList [.symbol keyword, d] .nil) rest
  | list {t : Token} {ts rest : List Token} {r : Except ReadError Sexp} (ht : t.kind = .listOpen)
      (h : Descends (.start (.collect .list [])) ts r rest) :
      Descends (.run .datum) (t :: ts) r rest
  | vector {t : Token} {ts rest : List Token} {r : Except ReadError (List Sexp)}
      (ht : t.kind = .vectorOpen)
      (h : Descends (.start (.collect .items [])) ts r rest) :
      Descends (.run .datum) (t :: ts) (r.map fun items => .vector () items) rest
  | bytes {t : Token} {ts rest : List Token} {r : Except ReadError (List Sexp)}
      (ht : t.kind = .bytesOpen)
      (h : Descends (.start (.collect .items [])) ts r rest) :
      Descends (.run .datum) (t :: ts)
        (r.bind fun items => (bytesOf t.place items).map fun data => .bytes () data) rest
  -- items
  | close {c : Collector} {found : List Sexp} {t : Token} {ts : List Token} (ht : t.kind = .close) :
      Descends (.run (.collect c found)) (t :: ts) (.ok (c.finish found)) ts
  | item {c : Collector} {found : List Sexp} {t : Token} {ts us rest : List Token} {d : Sexp}
      {r : Except ReadError c.Result} (ht : c.GoesOn t.kind)
      (hd : Descends (.start .datum) (t :: ts) (.ok d) us)
      (h : Descends (.start (.collect c (found ++ [d]))) us r rest) :
      Descends (.run (.collect c found)) (t :: ts) r rest
  | badItem {c : Collector} {found : List Sexp} {t : Token} {ts rest : List Token} {e : ReadError}
      (ht : c.GoesOn t.kind) (hd : Descends (.start .datum) (t :: ts) (.error e) rest) :
      Descends (.run (.collect c found)) (t :: ts) (.error e) rest
  -- the dot of a list and what comes after it
  | firstDot {t : Token} {ts : List Token} (ht : t.kind = .dot) :
      Descends (.run (.collect .list [])) (t :: ts) (malformedAt .unexpectedDot t.place) (t :: ts)
  | tail {found : List Sexp} {t : Token} {ts us rest : List Token} {d : Sexp}
      {r : Except ReadError Sexp}
      (hfound : found ≠ []) (ht : t.kind = .dot) (hd : Descends (.start .datum) ts (.ok d) us)
      (h : Descends (.start (.closing found d)) us r rest) :
      Descends (.run (.collect .list found)) (t :: ts) r rest
  | badTail {found : List Sexp} {t : Token} {ts rest : List Token} {e : ReadError}
      (hfound : found ≠ []) (ht : t.kind = .dot)
      (hd : Descends (.start .datum) ts (.error e) rest) :
      Descends (.run (.collect .list found)) (t :: ts) (.error e) rest
  | closed {found : List Sexp} {d : Sexp} {t : Token} {ts : List Token} (ht : t.kind = .close) :
      Descends (.run (.closing found d)) (t :: ts) (.ok (Sexp.ofList found d)) ts
  | notClosed {found : List Sexp} {d : Sexp} {t : Token} {ts : List Token} (ht : t.kind ≠ .close) :
      Descends (.run (.closing found d)) (t :: ts) (malformedAt .closeExpected t.place) ts

/-- A call for the next datum. -/
abbrev Call : List Token → Except ReadError Sexp → List Token → Prop := Descends (.start .next)

/-! ### The procedures and the stack -/

/-- Go on with what has been read: a datum is handed over, and an error ends it all. -/
def resumeWith (stack : List Pending) (r : Except ReadError Sexp) (rest : List Token) :
    Except ReadError Sexp × List Token :=
  match r with
  | .ok d => (complete d stack).resume rest
  | .error e => (.error e, rest)

/-- The part is read with this stack, and then reading goes on in this way. -/
inductive Hosts : (p : Part) → List Pending →
    (Except ReadError p.Result → List Token → Except ReadError Sexp × List Token) → Prop where
  | next : Hosts .next [] Prod.mk
  | datum {stack : List Pending} (hs : isClosing stack = false) :
      Hosts .datum stack (resumeWith stack)
  | list (found : List Sexp) (stack : List Pending) :
      Hosts (.collect .list found) (.list found.reverse :: stack) (resumeWith stack)
  | vector (found : List Sexp) (stack : List Pending) :
      Hosts (.collect .items found) (.vector found.reverse :: stack)
        fun r rest => resumeWith stack (r.map fun items => .vector () items) rest
  | bytes (place : Option Position) (found : List Sexp) (stack : List Pending) :
      Hosts (.collect .items found) (.bytes place found.reverse :: stack)
        fun r rest =>
          resumeWith stack
            (r.bind fun items => (bytesOf place items).map fun data => .bytes () data) rest
  | closing (found : List Sexp) (d : Sexp) (stack : List Pending) :
      Hosts (.closing found d) (.closing found.reverse d :: stack) (resumeWith stack)

/-- A token that starts no datum is refused with this stack as where a datum has to come. -/
def Refuses (stack : List Pending) (k : TokenKind) : Prop :=
  (k = .close → ∀ place, closeTop place stack = malformedAt .unexpectedClose place) ∧
  (k = .dot → ∀ items outer, stack ≠ .list items :: outer)

/-- With this stack and these tokens, a datum has to come. -/
def AwaitsDatum (stack : List Pending) (ts : List Token) : Prop :=
  (ts = [] → stack ≠ []) ∧ ∀ t us, ts = t :: us → Refuses stack t.kind

/-- The tokens are such that the part can be read with this stack. -/
def Part.Fits : Part → List Pending → List Token → Prop
  | .datum, stack, ts => AwaitsDatum stack ts
  | _, _, _ => True

/-- The stack and the procedure come to the same. -/
def Agrees : (p : Procedure) → List Token → Except ReadError p.Result → List Token → Prop
  | .comments, ts, .ok _, rest => Plain rest ∧ ∀ stack, readWith stack ts = readWith stack rest
  | .comments, ts, .error e, rest => ∀ stack, readWith stack ts = (.error e, rest)
  | .start p, ts, r, rest => ∀ stack k, Hosts p stack k →
      (∀ us, Descends .comments ts (.ok ()) us → p.Fits stack us) → readWith stack ts = k r rest
  | .run p, ts, r, rest => Plain ts → ∀ stack k, Hosts p stack k → p.Fits stack ts →
      readWith stack ts = k r rest

section Stack

variable {p : Part} {c : Collector} {found : List Sexp} {stack : List Pending}
    {ts us rest : List Token}
  {k : Except ReadError p.Result → List Token → Except ReadError Sexp × List Token}

theorem Hosts.error (h : Hosts p stack k) (e : ReadError) (rest : List Token) :
    k (.error e) rest = (.error e, rest) := by
  cases h <;> rfl

theorem readWith_nil {stack : List Pending} (h : stack ≠ []) :
    readWith stack [] = (.error .incomplete, []) := by
  cases stack with
  | nil => exact absurd rfl h
  | cons => rfl

/-- Nothing is passed where no comment stands in front. -/
theorem eq_of_comments (h : Descends .comments ts (.ok ()) us) (hplain : Plain ts) : us = ts := by
  cases h with
  | plain => rfl
  | comment ht => exact absurd ht (hplain _ _ rfl)

/-- What is open waits for one datum. -/
def Pending.Waits : Pending → Prop
  | .comment | .dotted _ | .quotation _ => True
  | _ => False

theorem awaitsDatum_of_waits {top : Pending} (h : top.Waits) (stack : List Pending)
    (ts : List Token) :
    AwaitsDatum (top :: stack) ts := by
  match top, h with
  | .comment, _ | .dotted _, _ | .quotation _, _ =>
    exact ⟨fun _ => nofun, fun _ _ _ => ⟨fun _ _ => rfl, fun _ => nofun⟩⟩

/-- A datum is read after a comment mark, a dot or a quotation mark. -/
theorem readWith_of_waits (top : Pending) (h : top.Waits) {r : Except ReadError Sexp}
    (ih : Agrees (.start .datum) ts r rest) (stack : List Pending) :
    readWith (top :: stack) ts = resumeWith (top :: stack) r rest := by
  refine ih _ _ (.datum ?_) fun us _ => awaitsDatum_of_waits h stack us
  match top, h with
  | .comment, _ | .dotted _, _ | .quotation _, _ => rfl

/-- The tail of a list is read after the dot. -/
theorem readWith_tail {t : Token} (hfound : found ≠ []) (ht : t.kind = .dot)
    {r : Except ReadError Sexp} (ih : Agrees (.start .datum) ts r rest) (stack : List Pending) :
    readWith (.list found.reverse :: stack) (t :: ts) =
      resumeWith (.dotted found.reverse :: stack) r rest := by
  obtain ⟨x, items, hitems⟩ := List.exists_cons_of_ne_nil (mt List.reverse_eq_nil_iff.1 hfound)
  rw [hitems, readWith_dot ht]
  exact readWith_of_waits (.dotted _) trivial ih stack

/-- An item is a datum that is read with the stack of the items. -/
theorem Hosts.readWith_item
    {k : Except ReadError c.Result → List Token → Except ReadError Sexp × List Token}
    (h : Hosts (.collect c found) stack k) {t : Token} (hplain : Plain (t :: ts))
    (ht : c.GoesOn t.kind) {r : Except ReadError Sexp}
    (ih : Agrees (.start .datum) (t :: ts) r rest) :
    readWith stack (t :: ts) = resumeWith stack r rest := by
  have hs : isClosing stack = false := by cases h <;> rfl
  refine ih stack _ (.datum hs) fun us hus => ?_
  rw [eq_of_comments hus hplain]
  refine ⟨nofun, ?_⟩
  rintro _ _ ⟨⟩
  refine ⟨fun hclose => absurd hclose ht.1, fun hdot => ?_⟩
  cases h with
  | list => exact absurd hdot (ht.2 rfl)
  | vector => exact fun _ _ => nofun
  | bytes => exact fun _ _ => nofun

/-- An item that has been read is kept. -/
theorem Hosts.resumeWith_item
    {k : Except ReadError c.Result → List Token → Except ReadError Sexp × List Token}
    (h : Hosts (.collect c found) stack k) (d : Sexp) :
    ∃ stack', (∀ rest, resumeWith stack (.ok d) rest = readWith stack' rest) ∧
      Hosts (.collect c (found ++ [d])) stack' k := by
  have hfound : d :: found.reverse = (found ++ [d]).reverse := List.reverse_concat.symm
  cases h with
  | list _ outer =>
    exact ⟨.list (d :: found.reverse) :: outer, fun _ => rfl, hfound ▸ .list _ outer⟩
  | vector _ outer =>
    exact ⟨.vector (d :: found.reverse) :: outer, fun _ => rfl, hfound ▸ .vector _ outer⟩
  | bytes place _ outer =>
    exact ⟨.bytes place (d :: found.reverse) :: outer, fun _ => rfl, hfound ▸ .bytes place _ outer⟩

/-- A closing parenthesis ends the items. -/
theorem Hosts.readWith_close
    {k : Except ReadError c.Result → List Token → Except ReadError Sexp × List Token}
    (h : Hosts (.collect c found) stack k) {t : Token} (ht : t.kind = .close) :
    readWith stack (t :: ts) = k (.ok (c.finish found)) ts := by
  cases h with
  | list _ outer => exact Reader.readWith_close ht (by rw [closeTop, List.reverse_reverse]; rfl)
  | vector _ outer => exact Reader.readWith_close ht (by rw [closeTop, List.reverse_reverse]; rfl)
  | bytes place _ outer =>
    cases hbytes : bytesOf place found with
    | ok data =>
      rw [Reader.readWith_close (d := .bytes () data) ht
        (by rw [closeTop, List.reverse_reverse, hbytes])]
      simp only [Collector.finish, Except.bind, hbytes, Except.map, resumeWith]
    | error e =>
      rw [readWith_badClose (e := e) ht (by rw [closeTop, List.reverse_reverse, hbytes])]
      simp only [Collector.finish, Except.bind, hbytes, Except.map, resumeWith]

/-! ### Each procedure -/

theorem agrees_comment {t : Token} {d : Sexp} {r : Except ReadError Unit}
    (ht : t.kind = .datumComment) (hd : Agrees (.start .datum) ts (.ok d) us)
    (hc : Agrees .comments us r rest) :
    Agrees .comments (t :: ts) r rest := by
  have hstep (stack : List Pending) : readWith stack (t :: ts) = readWith stack us := by
    rw [readWith_comment ht, readWith_of_waits .comment trivial hd]
    rfl
  cases r with
  | ok => exact ⟨hc.1, fun stack => (hstep stack).trans (hc.2 stack)⟩
  | error e => exact fun stack => (hstep stack).trans (hc stack)

theorem agrees_badComment {t : Token} {e : ReadError} (ht : t.kind = .datumComment)
    (hd : Agrees (.start .datum) ts (.error e) rest) :
    Agrees .comments (t :: ts) (.error e) rest := by
  intro stack
  rw [readWith_comment ht, readWith_of_waits .comment trivial hd]
  rfl

theorem agrees_start {r : Except ReadError p.Result} (h : Descends .comments ts (.ok ()) us)
    (hc : Agrees .comments ts (.ok ()) us) (hp : Agrees (.run p) us r rest) :
    Agrees (.start p) ts r rest := by
  intro stack k hw hfits
  rw [hc.2 stack]
  exact hp hc.1 stack k hw (hfits us h)

theorem agrees_badStart {e : ReadError} (hc : Agrees .comments ts (.error e) rest) :
    Agrees (.start p) ts (.error e) rest := by
  intro stack k hw _
  rw [hc stack, hw.error]

theorem agrees_ended (hp : p ≠ .next) : Agrees (.run p) [] (.error .incomplete) [] := by
  intro _ stack k hw hfits
  rw [hw.error]
  cases hw with
  | next => exact absurd rfl hp
  | datum => exact readWith_nil (hfits.1 rfl)
  | _ => rfl

theorem agrees_next {t : Token} {r : Except ReadError Sexp}
    (hd : Agrees (.start .datum) (t :: ts) r rest) :
    Agrees (.run .next) (t :: ts) r rest := by
  intro hplain stack k hw _
  cases hw
  have hread : readWith [] (t :: ts) = resumeWith [] r rest := by
    refine hd [] _ (.datum rfl) fun us hus => ?_
    rw [eq_of_comments hus hplain]
    exact ⟨nofun, fun _ _ _ => ⟨fun _ _ => rfl, fun _ => nofun⟩⟩
  rw [hread]
  cases r <;> rfl

/-- A datum is read with any stack that awaits one. -/
theorem agrees_datum {t : Token} {r : Except ReadError Sexp}
    (h : ∀ stack, isClosing stack = false → Refuses stack t.kind →
      readWith stack (t :: ts) = resumeWith stack r rest) :
    Agrees (.run .datum) (t :: ts) r rest := by
  intro _ stack k hw hfits
  cases hw with
  | datum hs => exact h stack hs (hfits.2 t ts rfl)

theorem agrees_quotation {t : Token} {keyword : String} {r : Except ReadError Sexp}
    (ht : t.kind = .quotation keyword) (hd : Agrees (.start .datum) ts r rest) :
    Agrees (.run .datum) (t :: ts) (r.map fun d => Sexp.ofList [.symbol keyword, d] .nil) rest := by
  refine agrees_datum fun stack hs _ => ?_
  rw [readWith_quotation ht hs, readWith_of_waits (.quotation keyword) trivial hd]
  cases r <;> rfl

/-- What opens a list, a vector or a bytevector puts its items, none yet, on the stack. -/
theorem agrees_opening {t : Token} {top : Pending} {r : Except ReadError c.Result}
    {f : Except ReadError c.Result → Except ReadError Sexp}
    (hopen : ∀ stack, isClosing stack = false →
      readWith stack (t :: ts) = readWith (top :: stack) ts)
    (htop : ∀ stack, Hosts (.collect c []) (top :: stack) fun r rest => resumeWith stack (f r) rest)
    (hitems : Agrees (.start (.collect c [])) ts r rest) :
    Agrees (.run .datum) (t :: ts) (f r) rest :=
  agrees_datum fun stack hs _ =>
    (hopen stack hs).trans (hitems _ _ (htop stack) fun _ _ => trivial)

theorem agrees_item {t : Token} {d : Sexp} {r : Except ReadError c.Result} (ht : c.GoesOn t.kind)
    (hd : Agrees (.start .datum) (t :: ts) (.ok d) us)
    (hitems : Agrees (.start (.collect c (found ++ [d]))) us r rest) :
    Agrees (.run (.collect c found)) (t :: ts) r rest := by
  intro hplain stack k hw _
  obtain ⟨stack', hstack', hw'⟩ := hw.resumeWith_item d
  rw [hw.readWith_item hplain ht hd, hstack']
  exact hitems stack' k hw' fun _ _ => trivial

theorem agrees_badItem {t : Token} {e : ReadError} (ht : c.GoesOn t.kind)
    (hd : Agrees (.start .datum) (t :: ts) (.error e) rest) :
    Agrees (.run (.collect c found)) (t :: ts) (.error e) rest := by
  intro hplain stack k hw _
  rw [hw.readWith_item hplain ht hd, hw.error]
  rfl

theorem agrees_firstDot {t : Token} (ht : t.kind = .dot) :
    Agrees (.run (.collect .list [])) (t :: ts) (malformedAt .unexpectedDot t.place) (t :: ts) := by
  intro _ stack k hw _
  cases hw
  exact readWith_firstDot ht

theorem agrees_tail {t : Token} {d : Sexp} {r : Except ReadError Sexp} (hfound : found ≠ [])
    (ht : t.kind = .dot) (hd : Agrees (.start .datum) ts (.ok d) us)
    (hclosing : Agrees (.start (.closing found d)) us r rest) :
    Agrees (.run (.collect .list found)) (t :: ts) r rest := by
  intro _ stack k hw _
  cases hw with
  | list _ outer =>
    rw [readWith_tail hfound ht hd]
    exact hclosing _ _ (.closing found d outer) fun _ _ => trivial

theorem agrees_badTail {t : Token} {e : ReadError} (hfound : found ≠ []) (ht : t.kind = .dot)
    (hd : Agrees (.start .datum) ts (.error e) rest) :
    Agrees (.run (.collect .list found)) (t :: ts) (.error e) rest := by
  intro _ stack k hw _
  cases hw with
  | list _ outer =>
    rw [readWith_tail hfound ht hd]
    rfl

theorem agrees_closed {d : Sexp} {t : Token} (ht : t.kind = .close) :
    Agrees (.run (.closing found d)) (t :: ts) (.ok (Sexp.ofList found d)) ts := by
  intro _ stack k hw _
  cases hw
  exact readWith_close ht (by rw [closeTop, List.reverse_reverse])

theorem agrees_notClosed {d : Sexp} {t : Token} (ht : t.kind ≠ .close) :
    Agrees (.run (.closing found d)) (t :: ts) (malformedAt .closeExpected t.place) ts := by
  intro hplain stack k hw _
  cases hw
  exact readWith_closing rfl (hplain _ _ rfl) ht

end Stack

/-- **Reading comes to what the procedures come to.** -/
theorem readWith_of_descends {p : Procedure} {ts rest : List Token} {r : Except ReadError p.Result}
    (h : Descends p ts r rest) : Agrees p ts r rest := by
  induction h with
  | plain h => exact ⟨h, fun _ => rfl⟩
  | comment ht _ _ ihd ihc => exact agrees_comment ht ihd ihc
  | badComment ht _ ihd => exact agrees_badComment ht ihd
  | skip hc _ ihc ihp => exact agrees_start hc ihc ihp
  | badSkip _ ihc => exact agrees_badStart ihc
  | noneLeft =>
    intro _ stack k hw _
    cases hw
    rfl
  | ended hp => exact agrees_ended hp
  | next _ ih => exact agrees_next ih
  | atom ht => exact agrees_datum fun _ hs _ => readWith_atom ht hs
  | strayClose ht => exact agrees_datum fun _ _ hrefuses => readWith_badClose ht (hrefuses.1 ht _)
  | strayDot ht => exact agrees_datum fun _ hs hrefuses => readWith_strayDot ht hs (hrefuses.2 ht)
  | quotation ht _ ih => exact agrees_quotation ht ih
  | list ht _ ih =>
    exact agrees_opening (f := id) (fun _ hs => readWith_listOpen ht hs) (.list []) ih
  | vector ht _ ih => exact agrees_opening (fun _ hs => readWith_vectorOpen ht hs) (.vector []) ih
  | bytes ht _ ih => exact agrees_opening (fun _ hs => readWith_bytesOpen ht hs) (.bytes _ []) ih
  | close ht => exact fun _ _ _ hw _ => hw.readWith_close ht
  | item ht _ _ ihd ih => exact agrees_item ht ihd ih
  | badItem ht _ ihd => exact agrees_badItem ht ihd
  | firstDot ht => exact agrees_firstDot ht
  | tail hfound ht _ _ ihd ih => exact agrees_tail hfound ht ihd ih
  | badTail hfound ht _ ihd => exact agrees_badTail hfound ht ihd
  | closed ht => exact agrees_closed ht
  | notClosed ht => exact agrees_notClosed ht

/-! ### What is taken -/

/-- The call takes a token if there is one: it is for a datum, or it fails among comments. -/
def TakesToken : (p : Procedure) → Except ReadError p.Result → Prop
  | .comments, r => ∃ e, r = .error e
  | .start p, _ => p = .next ∨ p = .datum
  | .run p, _ => p = .next ∨ p = .datum

/-- **What a procedure leaves** comes last among its tokens, after errors as well, and reading a
datum takes one token at least. -/
theorem takes_of_descends {p : Procedure} {ts rest : List Token} {r : Except ReadError p.Result}
    (h : Descends p ts r rest) :
    rest <:+ ts ∧ (TakesToken p r → ts ≠ [] → rest.length < ts.length) := by
  -- the first token is taken whenever what is left is left by what comes after it
  have hcons {t : Token} {ts rest : List Token} {q : Prop} (h : rest <:+ ts) :
      rest <:+ t :: ts ∧ (q → t :: ts ≠ [] → rest.length < (t :: ts).length) :=
    ⟨h.trans (List.suffix_cons t ts), fun _ _ => Nat.lt_succ_of_le h.length_le⟩
  induction h with
  | plain => exact ⟨List.suffix_refl _, nofun⟩
  | comment _ _ _ ihd ihc => exact hcons (ihc.1.trans ihd.1)
  | badComment _ _ ihd => exact hcons ihd.1
  | @skip p ts us rest r _ _ ihc ihp =>
    refine ⟨ihp.1.trans ihc.1, fun htakes hts => ?_⟩
    have hle := ihc.1.length_le
    have hpos := List.length_pos_of_ne_nil hts
    by_cases hus : us = []
    · have hnil := ihp.1.length_le
      rw [hus, List.length_nil] at hnil
      omega
    · have hlt := ihp.2 htakes hus
      omega
  | badSkip _ ihc => exact ⟨ihc.1, fun _ => ihc.2 ⟨_, rfl⟩⟩
  | noneLeft => exact ⟨List.suffix_refl _, fun _ h => absurd rfl h⟩
  | ended => exact ⟨List.suffix_refl _, fun _ h => absurd rfl h⟩
  | next _ ih => exact ⟨ih.1, fun _ => ih.2 (.inr rfl)⟩
  | atom | strayClose | strayDot | close | closed | notClosed => exact hcons (List.suffix_refl _)
  | quotation _ _ ih | list _ _ ih | vector _ _ ih | bytes _ _ ih => exact hcons ih.1
  | item _ _ _ ihd ih => exact ⟨ih.1.trans ihd.1, nofun⟩
  | badItem _ _ ihd => exact ⟨ihd.1, nofun⟩
  | firstDot => exact ⟨List.suffix_refl _, nofun⟩
  | tail _ _ _ _ ihd ih => exact hcons (ih.1.trans ihd.1)
  | badTail _ _ _ ihd => exact hcons ihd.1

/-! ### Every procedure ends -/

/-- The procedure ends. -/
def Ends (p : Procedure) (ts : List Token) : Prop :=
  ∃ (r : Except ReadError p.Result) (rest : List Token), Descends p ts r rest

/-- All procedures that start with comments end on fewer tokens than `n`, and so does passing
comments. -/
def EndsBelow (n : Nat) : Prop :=
  ∀ us : List Token, us.length < n → Ends .comments us ∧ ∀ p, Ends (.start p) us

section Ends

variable {ts : List Token}

/-- The loop over comments goes round again with fewer tokens. -/
theorem ends_comments (h : EndsBelow ts.length) : Ends .comments ts := by
  match ts, h with
  | [], _ => exact ⟨_, _, .plain nofun⟩
  | t :: ts, h =>
    by_cases ht : t.kind = .datumComment
    · obtain ⟨r, us, hd⟩ := (h ts (Nat.lt_succ_self _)).2 .datum
      cases r with
      | error e => exact ⟨_, _, .badComment ht hd⟩
      | ok d =>
        have hle := (takes_of_descends hd).1.length_le
        obtain ⟨r, rest, hc⟩ := (h us (Nat.lt_succ_of_le hle)).1
        exact ⟨r, rest, .comment ht hd hc⟩
    · exact ⟨_, _, .plain (by rintro _ _ ⟨⟩; exact ht)⟩

/-- A part ends if it ends after the comments. -/
theorem ends_start {p : Part} (hc : Ends .comments ts)
    (h : ∀ us, us <:+ ts → Plain us → Ends (.run p) us) :
    Ends (.start p) ts := by
  obtain ⟨r, us, hc⟩ := hc
  cases r with
  | error e => exact ⟨_, _, .badSkip hc⟩
  | ok =>
    obtain ⟨r, rest, hp⟩ := h us (takes_of_descends hc).1 (readWith_of_descends hc).1
    exact ⟨r, rest, .skip hc hp⟩

theorem ends_run_next (h : Ends (.start .datum) ts) : Ends (.run .next) ts := by
  match ts, h with
  | [], _ => exact ⟨_, _, .noneLeft⟩
  | t :: ts, ⟨r, rest, h⟩ => exact ⟨r, rest, .next h⟩

/-- A datum is read off fewer tokens once its first one is taken. -/
theorem ends_run_datum (h : EndsBelow ts.length) (hplain : Plain ts) : Ends (.run .datum) ts := by
  match ts, h with
  | [], _ => exact ⟨_, _, .ended nofun⟩
  | t :: ts, h =>
    have hstart (p : Part) : Ends (.start p) ts := (h ts (Nat.lt_succ_self _)).2 p
    cases ht : t.kind with
    | atom d => exact ⟨_, _, .atom ht⟩
    | close => exact ⟨_, _, .strayClose ht⟩
    | dot => exact ⟨_, _, .strayDot ht⟩
    | datumComment => exact absurd ht (hplain _ _ rfl)
    | quotation keyword =>
      obtain ⟨r, rest, hd⟩ := hstart .datum
      exact ⟨_, _, .quotation ht hd⟩
    | listOpen =>
      obtain ⟨r, rest, hp⟩ := hstart (.collect .list [])
      exact ⟨_, _, .list ht hp⟩
    | vectorOpen =>
      obtain ⟨r, rest, hp⟩ := hstart (.collect .items [])
      exact ⟨_, _, .vector ht hp⟩
    | bytesOpen =>
      obtain ⟨r, rest, hp⟩ := hstart (.collect .items [])
      exact ⟨_, _, .bytes ht hp⟩

/-- The loop over items goes round again with fewer tokens: an item that has been read has taken
one. -/
theorem ends_run_collect (hd : Ends (.start .datum) ts) (h : EndsBelow ts.length) (c : Collector)
    (found : List Sexp) : Ends (.run (.collect c found)) ts := by
  match ts, h, hd with
  | [], _, _ => exact ⟨_, _, .ended nofun⟩
  | t :: ts, h, ⟨r, us, hd⟩ =>
    by_cases hclose : t.kind = .close
    · exact ⟨_, _, .close hclose⟩
    by_cases hdot : c = .list ∧ t.kind = .dot
    · obtain ⟨rfl, hdot⟩ := hdot
      by_cases hfound : found = []
      · subst hfound
        exact ⟨_, _, .firstDot hdot⟩
      obtain ⟨r, us, hd⟩ := (h ts (Nat.lt_succ_self _)).2 .datum
      cases r with
      | error e => exact ⟨_, _, .badTail hfound hdot hd⟩
      | ok d =>
        have hle := (takes_of_descends hd).1.length_le
        obtain ⟨r, rest, hp⟩ := (h us (Nat.lt_succ_of_le hle)).2 (.closing found d)
        exact ⟨r, rest, .tail hfound hdot hd hp⟩
    · have hgo : c.GoesOn t.kind := ⟨hclose, fun hc hk => hdot ⟨hc, hk⟩⟩
      cases r with
      | error e => exact ⟨_, _, .badItem hgo hd⟩
      | ok d =>
        have hlt := (takes_of_descends hd).2 (.inr rfl) (List.cons_ne_nil t ts)
        obtain ⟨r, rest, hp⟩ := (h us hlt).2 (.collect c (found ++ [d]))
        exact ⟨r, rest, .item hgo hd hp⟩

theorem ends_run_closing (found : List Sexp) (d : Sexp) (ts : List Token) :
    Ends (.run (.closing found d)) ts := by
  match ts with
  | [] => exact ⟨_, _, .ended nofun⟩
  | t :: ts =>
    by_cases ht : t.kind = .close
    · exact ⟨_, _, .closed ht⟩
    · exact ⟨_, _, .notClosed ht⟩

end Ends

theorem endsBelow (n : Nat) : EndsBelow n := by
  induction n with
  | zero => exact fun us hus => absurd hus (Nat.not_lt_zero _)
  | succ n ih =>
    intro ts hts
    have hbelow (us : List Token) (hus : us <:+ ts) : EndsBelow us.length := by
      have hle := hus.length_le
      exact fun vs hvs => ih vs (by omega)
    have hcomments (us : List Token) (hus : us <:+ ts) : Ends .comments us :=
      ends_comments (hbelow us hus)
    have hdatum (us : List Token) (hus : us <:+ ts) : Ends (.start .datum) us :=
      ends_start (hcomments us hus) fun vs hvs => ends_run_datum (hbelow vs (hvs.trans hus))
    refine ⟨hcomments ts (List.suffix_refl ts), fun p => ends_start
      (hcomments ts (List.suffix_refl ts)) ?_⟩
    intro us hus hplain
    cases p with
    | next => exact ends_run_next (hdatum us hus)
    | datum => exact ends_run_datum (hbelow us hus) hplain
    | collect c found => exact ends_run_collect (hdatum us hus) (hbelow us hus) c found
    | closing found d => exact ends_run_closing found d us

/-- **Every procedure ends.** -/
theorem exists_descends (p : Part) (ts : List Token) : Ends (.start p) ts :=
  (endsBelow (ts.length + 1) ts (Nat.lt_succ_self _)).2 p

/-- **Reading the next datum is one call.** -/
theorem call_iff_read {ts rest : List Token} {r : Except ReadError Sexp} :
    Call ts r rest ↔ read ts = (r, rest) := by
  have hread {r : Except ReadError Sexp} {rest : List Token} (h : Call ts r rest) :
      read ts = (r, rest) :=
    readWith_of_descends h [] Prod.mk .next fun _ _ => trivial
  refine ⟨hread, fun h => ?_⟩
  obtain ⟨r', rest', h'⟩ := exists_descends .next ts
  cases h.symm.trans (hread h')
  exact h'

end Scheme.Reader
