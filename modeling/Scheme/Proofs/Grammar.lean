import Mathlib
import Scheme.Reader.Parser

/-!
# The grammar of data

Tokens form data by the grammar

* datum ::= C* core, where C ::= `#;` datum;
* core ::= atom | `(` datum* C* `)` | `(` datum+ C* `.` datum C* `)` | `#(` datum* C* `)` |
  `#vu8(` datum* C* `)` with bytes as items | mark datum.

`Derivation` is the type of its derivation trees, `Derivation.kinds` their tokens and `Derives` what
they denote.  Reading follows the grammar in both directions:

* `turn`: what one token does to what is open; reading takes one turn after the other;
* `readWith_derivation`: a stack of what is open takes a derived datum in one go;
* `Opened`: the tokens that lead to a stack, an invariant of reading;
* `unique_derivation`: the tokens determine the derivation and where it ends;
* `read_iff_derivation`: the main result.
-/

namespace Scheme.Reader

/-- The nonterminals of the grammar: a datum, a datum without comments in front, C* and datum*. -/
inductive Nonterminal where
  | datum
  | core
  | comments
  | data

/-- What a nonterminal denotes. -/
abbrev Nonterminal.Meaning : Nonterminal → Type
  | .datum => Sexp
  | .core => Sexp
  | .comments => Unit
  | .data => List Sexp

/-- The derivation trees of a nonterminal. -/
inductive Derivation : Nonterminal → Type where
  | datum (cs : Derivation .comments) (c : Derivation .core) : Derivation .datum
  | atom (d : Sexp) : Derivation .core
  | list (xs : Derivation .data) (cs : Derivation .comments) : Derivation .core
  | dotted (x : Derivation .datum) (xs : Derivation .data) (before : Derivation .comments)
      (tail : Derivation .datum) (after : Derivation .comments) : Derivation .core
  | vector (xs : Derivation .data) (cs : Derivation .comments) : Derivation .core
  | bytes (xs : Derivation .data) (cs : Derivation .comments) : Derivation .core
  | quotation (keyword : String) (x : Derivation .datum) : Derivation .core
  | noComments : Derivation .comments
  | comment (x : Derivation .datum) (cs : Derivation .comments) : Derivation .comments
  | noData : Derivation .data
  | data (x : Derivation .datum) (xs : Derivation .data) : Derivation .data

/-- The tokens of a derivation. -/
def Derivation.kinds {n : Nonterminal} : Derivation n → List TokenKind
  | .datum cs c => cs.kinds ++ c.kinds
  | .atom d => [.atom d]
  | .list xs cs => .listOpen :: (xs.kinds ++ (cs.kinds ++ [.close]))
  | .dotted x xs before tail after =>
    .listOpen :: (x.kinds ++ (xs.kinds ++ (before.kinds ++
      .dot :: (tail.kinds ++ (after.kinds ++ [.close])))))
  | .vector xs cs => .vectorOpen :: (xs.kinds ++ (cs.kinds ++ [.close]))
  | .bytes xs cs => .bytesOpen :: (xs.kinds ++ (cs.kinds ++ [.close]))
  | .quotation keyword x => .quotation keyword :: x.kinds
  | .noComments => []
  | .comment x cs => .datumComment :: (x.kinds ++ cs.kinds)
  | .noData => []
  | .data x xs => x.kinds ++ xs.kinds

/-- A byte as a datum: an exact integer from 0 to 255. -/
def byteDatum (b : UInt8) : Sexp := .number (.ofInt b.toNat)

/-- What a derivation denotes; the items of a bytevector have to be bytes. -/
inductive Derives : {n : Nonterminal} → Derivation n → n.Meaning → Prop where
  | datum {cs c} {d : Sexp} : Derives cs () → Derives c d → Derives (.datum cs c) d
  | atom (d : Sexp) : Derives (.atom d) d
  | list {xs cs} {items : List Sexp} :
      Derives xs items → Derives cs () → Derives (.list xs cs) (Sexp.ofList items .nil)
  | dotted {x xs before tail after} {d e : Sexp} {items : List Sexp} :
      Derives x d → Derives xs items → Derives before () → Derives tail e → Derives after () →
      Derives (.dotted x xs before tail after) (Sexp.ofList (d :: items) e)
  | vector {xs cs} {items : List Sexp} :
      Derives xs items → Derives cs () → Derives (.vector xs cs) (Datum.vector () items)
  | bytes {xs cs} {data : List UInt8} :
      Derives xs (data.map byteDatum) → Derives cs () → Derives (.bytes xs cs) (Datum.bytes () data)
  | quotation {x} {d : Sexp} (keyword : String) :
      Derives x d → Derives (.quotation keyword x) (Sexp.ofList [.symbol keyword, d] .nil)
  | noComments : Derives .noComments ()
  | comment {x cs} {d : Sexp} : Derives x d → Derives cs () → Derives (.comment x cs) ()
  | noData : Derives .noData []
  | data {x xs} {d : Sexp} {items : List Sexp} :
      Derives x d → Derives xs items → Derives (.data x xs) (d :: items)

/-! ### Bytes -/

theorem byte?_byteDatum (b : UInt8) : byte? (byteDatum b) = some b := by
  have hb : b.toNat < 256 := b.toNat_lt
  have hw : ((b.toNat : Int) : Int) < wordBound := by unfold wordBound; omega
  have hi : (Number.ofInt b.toNat).int? = some (b.toNat : Int) := by
    simp [Number.int?, Number.ofInt, Number.ofRat]
  simp [byte?, byteDatum, Number.uint64?, hi, hw, Nat.le_of_lt_succ hb]

theorem eq_byteDatum {d : Sexp} {b : UInt8} (h : byte? d = some b) : d = byteDatum b := by
  unfold byte? at h
  split at h
  case h_2 => cases h
  case h_1 n =>
    obtain ⟨k, hk, rfl⟩ := Option.map_eq_some_iff.1 h
    obtain ⟨hk, hle⟩ := Option.filter_eq_some_iff.1 hk
    obtain ⟨i, hi, rfl⟩ := Option.map_eq_some_iff.1 hk
    obtain ⟨hi, hpos⟩ := Option.filter_eq_some_iff.1 hi
    simp only [decide_eq_true_eq] at hle hpos
    cases n with
    | inexact z => cases hi
    | exact z =>
      obtain ⟨re, im⟩ := z
      simp only [Number.int?] at hi
      split at hi
      case isFalse => cases hi
      case isTrue hz =>
        obtain ⟨him, hden⟩ := hz
        simp only [Option.some.injEq] at hi
        have hre : re = (i : Rat) := by rw [← hi]; exact (Rat.coe_int_num_of_den_eq_one hden).symm
        have hnat : (UInt8.ofNat i.toNat).toNat = i.toNat := by simp; omega
        have hcast : ((i.toNat : Nat) : Int) = i := Int.toNat_of_nonneg hpos.1
        rw [byteDatum, hnat, hcast, hre, him]
        rfl

/-- The items of a bytevector are accepted exactly if they are bytes. -/
theorem bytesOf_eq_ok_iff (place : Option Position) (items : List Sexp) (data : List UInt8) :
    bytesOf place items = .ok data ↔ items = data.map byteDatum := by
  induction items generalizing data with
  | nil =>
    cases data with
    | nil => simp [bytesOf]
    | cons b data => simp [bytesOf]
  | cons d items ih =>
    constructor
    · intro h
      unfold bytesOf at h
      split at h
      · cases h
      · rename_i b hb
        split at h
        · rename_i bs hbs
          cases h
          rw [List.map_cons, ← (ih bs).1 hbs, ← eq_byteDatum hb]
        · cases h
    · intro h
      cases data with
      | nil => cases h
      | cons b data =>
        rw [List.map_cons, List.cons.injEq] at h
        rw [bytesOf, h.1, byte?_byteDatum, (ih data).2 h.2]

/-! ### One token at a time -/

/-- Go on reading after a datum has been handed over. -/
def Progress.resume : Progress → List Token → Except ReadError Sexp × List Token
  | .done d, rest => (.ok d, rest)
  | .more stack, rest => readWith stack rest

/-- What one token leads to: reading goes on, or the token is refused, and taken or left. -/
inductive Turn where
  | goOn (p : Progress)
  | refused (e : ReadError) (taken : Bool)

/-- The token starts a datum without comments in front. -/
def TokenKind.startsCore : TokenKind → Bool
  | .atom _ | .listOpen | .vectorOpen | .bytesOpen | .quotation _ => true
  | .close | .dot | .datumComment => false

/-- What a closing parenthesis leads to. -/
def Turn.close : Except ReadError (Sexp × List Pending) → Turn
  | .error e => .refused e true
  | .ok (d, stack) => .goOn (complete d stack)

/-- What a token leads to where a datum may start. -/
def Turn.start (place : Option Position) (stack : List Pending) : TokenKind → Turn
  | .listOpen => .goOn (.more (.list [] :: stack))
  | .vectorOpen => .goOn (.more (.vector [] :: stack))
  | .bytesOpen => .goOn (.more (.bytes place [] :: stack))
  | .quotation keyword => .goOn (.more (.quotation keyword :: stack))
  | .atom d => .goOn (complete d stack)
  | _ => .refused (.malformed (.unexpectedDot place)) true

/-- What one token does to what is open. -/
def turn (t : Token) (stack : List Pending) : Turn :=
  match t.kind, stack with
  | .datumComment, stack => .goOn (.more (.comment :: stack))
  | .close, stack => .close (closeTop t.place stack)
  | .dot, .list [] :: _ => .refused (.malformed (.unexpectedDot t.place)) false
  | .dot, .list items :: stack => .goOn (.more (.dotted items :: stack))
  | kind, stack =>
    if isClosing stack then .refused (.malformed (.closeExpected t.place)) true
    else .start t.place stack kind

/-- What the turn of a token comes to, with the tokens after it. -/
def Turn.resume : Turn → Token → List Token → Except ReadError Sexp × List Token
  | .goOn p, _, rest => p.resume rest
  | .refused e true, _, rest => (.error e, rest)
  | .refused e false, t, rest => (.error e, t :: rest)

section Tokens

variable {t : Token} {kind : TokenKind} {stack : List Pending} {rest : List Token}

/-- **Reading takes one turn after the other.** -/
theorem readWith_cons : readWith stack (t :: rest) = (turn t stack).resume t rest := by
  obtain ⟨kind, place⟩ := t
  cases kind with
  | datumComment => rfl
  | close =>
    show _ = (Turn.close (closeTop place stack)).resume _ _
    simp only [readWith]
    cases closeTop place stack with
    | error e => rfl
    | ok closed =>
      obtain ⟨d, outer⟩ := closed
      dsimp only [Turn.close, Turn.resume]
      cases complete d outer <;> rfl
  | dot =>
    match stack with
    | .list [] :: _ | .list (_ :: _) :: _ | .closing .. :: _ | [] | .dotted _ :: _ | .vector _ :: _
    | .bytes .. :: _ | .quotation _ :: _ | .comment :: _ => rfl
  | atom d =>
    show _ = Turn.resume (if isClosing stack then _ else _) _ _
    simp only [readWith]
    split_ifs
    · rfl
    · dsimp only [Turn.start, Turn.resume]
      cases complete d stack <;> rfl
  | _ =>
    show _ = Turn.resume (if isClosing stack then _ else _) _ _
    simp only [readWith]
    split_ifs <;> rfl

theorem readWith_comment (h : t.kind = .datumComment) :
    readWith stack (t :: rest) = readWith (.comment :: stack) rest := by
  obtain ⟨_, place⟩ := t
  cases h
  rfl

theorem readWith_shut (h : t.kind = .close) :
    readWith stack (t :: rest) = (Turn.close (closeTop t.place stack)).resume t rest := by
  obtain ⟨_, place⟩ := t
  cases h
  exact readWith_cons

theorem readWith_close {d : Sexp} {outer : List Pending} (h : t.kind = .close)
    (hc : closeTop t.place stack = .ok (d, outer)) :
    readWith stack (t :: rest) = (complete d outer).resume rest := by
  rw [readWith_shut h, hc]
  rfl

theorem readWith_badClose {e : ReadError} (h : t.kind = .close)
    (hc : closeTop t.place stack = .error e) : readWith stack (t :: rest) = (.error e, rest) := by
  rw [readWith_shut h, hc]
  rfl

theorem readWith_dot {d : Sexp} {items : List Sexp} (h : t.kind = .dot) :
    readWith (.list (d :: items) :: stack) (t :: rest) =
      readWith (.dotted (d :: items) :: stack) rest := by
  obtain ⟨_, place⟩ := t
  cases h
  rfl

theorem readWith_firstDot (h : t.kind = .dot) :
    readWith (.list [] :: stack) (t :: rest) = (malformedAt .unexpectedDot t.place, t :: rest) := by
  obtain ⟨_, place⟩ := t
  cases h
  rfl

theorem readWith_strayDot (h : t.kind = .dot) (hs : isClosing stack = false)
    (hlist : ∀ items outer, stack ≠ .list items :: outer) :
    readWith stack (t :: rest) = (malformedAt .unexpectedDot t.place, rest) := by
  obtain ⟨_, place⟩ := t
  cases h
  match stack with
  | .list items :: outer => exact absurd rfl (hlist items outer)
  | .closing .. :: _ => cases hs
  | [] | .dotted _ :: _ | .vector _ :: _ | .bytes .. :: _ | .quotation _ :: _ | .comment :: _ => rfl

/-- A token that starts a datum, where one may start. -/
theorem readWith_start (h : t.kind = kind) (hstart : kind.startsCore = true)
    (hs : isClosing stack = false) :
    readWith stack (t :: rest) = (Turn.start t.place stack kind).resume t rest := by
  obtain ⟨kind, place⟩ := t
  subst h
  have hturn (k : Turn) :
      (if isClosing stack then .refused (.malformed (.closeExpected place)) true else k) = k :=
    if_neg (by simp [hs])
  rw [readWith_cons]
  cases kind with
  | close | dot | datumComment => cases hstart
  | _ => exact congrArg (fun k => Turn.resume k _ rest) (hturn _)

theorem readWith_listOpen (h : t.kind = .listOpen) (hs : isClosing stack = false) :
    readWith stack (t :: rest) = readWith (.list [] :: stack) rest :=
  readWith_start h rfl hs

theorem readWith_vectorOpen (h : t.kind = .vectorOpen) (hs : isClosing stack = false) :
    readWith stack (t :: rest) = readWith (.vector [] :: stack) rest :=
  readWith_start h rfl hs

theorem readWith_bytesOpen (h : t.kind = .bytesOpen) (hs : isClosing stack = false) :
    readWith stack (t :: rest) = readWith (.bytes t.place [] :: stack) rest :=
  readWith_start h rfl hs

theorem readWith_quotation {keyword : String} (h : t.kind = .quotation keyword)
    (hs : isClosing stack = false) :
    readWith stack (t :: rest) = readWith (.quotation keyword :: stack) rest :=
  readWith_start h rfl hs

theorem readWith_atom {d : Sexp} (h : t.kind = .atom d) (hs : isClosing stack = false) :
    readWith stack (t :: rest) = (complete d stack).resume rest :=
  readWith_start h rfl hs

theorem readWith_closing (hs : isClosing stack = true) (hcomment : t.kind ≠ .datumComment)
    (hclose : t.kind ≠ .close) :
    readWith stack (t :: rest) = (malformedAt .closeExpected t.place, rest) := by
  obtain ⟨kind, place⟩ := t
  match stack with
  | .closing items tail :: outer =>
    cases kind with
    | datumComment => exact absurd rfl hcomment
    | close => exact absurd rfl hclose
    | _ => rfl

end Tokens

/-! ### Derived data are read -/

/-- A derivation of what is to come: the stack takes it in one go.  Items are collected by whatever
keeps the items found so far. -/
def Taken : {n : Nonterminal} → Derivation n → n.Meaning → Prop
  | .datum, x, d => ∀ ts rest stack, ts.map Token.kind = x.kinds → isClosing stack = false →
      readWith stack (ts ++ rest) = (complete d stack).resume rest
  | .core, x, d => ∀ ts rest stack, ts.map Token.kind = x.kinds → isClosing stack = false →
      readWith stack (ts ++ rest) = (complete d stack).resume rest
  | .comments, cs, _ => ∀ ts rest stack, ts.map Token.kind = cs.kinds →
      readWith stack (ts ++ rest) = readWith stack rest
  | .data, xs, items => ∀ ts rest stack (keep : List Sexp → Pending) found,
      ts.map Token.kind = xs.kinds →
      (∀ found, isClosing (keep found :: stack) = false) →
      (∀ d found, complete d (keep found :: stack) = .more (keep (d :: found) :: stack)) →
      readWith (keep found :: stack) (ts ++ rest) =
        readWith (keep (items.reverse ++ found) :: stack) rest

/-- A closing parenthesis after items and comments. -/
theorem readWith_items {xs : Derivation .data} {cs : Derivation .comments} {items : List Sexp}
    (hxs : Taken xs items) (hcs : Taken cs ()) {ts rest : List Token} {stack : List Pending}
    {d : Sexp} (keep : List Sexp → Pending) (found : List Sexp)
    (hts : ts.map Token.kind = xs.kinds ++ (cs.kinds ++ [TokenKind.close]))
    (hopen : ∀ found, isClosing (keep found :: stack) = false)
    (hkeep : ∀ d found, complete d (keep found :: stack) = .more (keep (d :: found) :: stack))
    (hclose : ∀ place, closeTop place (keep (items.reverse ++ found) :: stack) = .ok (d, stack)) :
    readWith (keep found :: stack) (ts ++ rest) = (complete d stack).resume rest := by
  obtain ⟨ts₁, ts₂, rfl, h₁, h₂⟩ := List.map_eq_append_iff.1 hts
  obtain ⟨ts₃, ts₄, rfl, h₃, h₄⟩ := List.map_eq_append_iff.1 h₂
  obtain ⟨t, ts₅, rfl, ht, h₅⟩ := List.map_eq_cons_iff.1 h₄
  rw [List.map_eq_nil_iff] at h₅
  subst h₅
  rw [List.append_assoc, hxs _ _ _ keep found h₁ hopen hkeep, List.append_assoc, hcs _ _ _ h₃,
    List.singleton_append, readWith_close ht (hclose t.place)]

/-- What an opening token starts: items and comments up to a closing parenthesis. -/
theorem taken_opening {c : Derivation .core} {d : Sexp} {xs : Derivation .data}
    {cs : Derivation .comments} {items : List Sexp} {k : TokenKind}
    (keep : Token → List Sexp → Pending) (hxs : Taken xs items) (hcs : Taken cs ())
    (hkinds : c.kinds = k :: (xs.kinds ++ (cs.kinds ++ [TokenKind.close])))
    (hopening : ∀ {t : Token} {ts : List Token} {stack : List Pending}, t.kind = k →
      isClosing stack = false → readWith stack (t :: ts) = readWith (keep t [] :: stack) ts)
    (hopen : ∀ t found stack, isClosing (keep t found :: stack) = false)
    (hkeep : ∀ t d found stack,
      complete d (keep t found :: stack) = .more (keep t (d :: found) :: stack))
    (hclose : ∀ t place stack, closeTop place (keep t items.reverse :: stack) = .ok (d, stack)) :
    Taken c d := by
  intro ts rest stack hts hs
  rw [hkinds] at hts
  obtain ⟨t, ts₁, rfl, ht, h₁⟩ := List.map_eq_cons_iff.1 hts
  rw [List.cons_append, hopening ht hs]
  refine readWith_items hxs hcs (keep t) [] h₁ (fun found => hopen t found stack)
    (fun d found => hkeep t d found stack) fun place => ?_
  rw [List.append_nil, hclose]

theorem taken_dotted {x : Derivation .datum} {xs : Derivation .data} {d e : Sexp}
    {items : List Sexp} {before after : Derivation .comments} {tail : Derivation .datum}
    (hx : Taken x d) (hxs : Taken xs items) (hbefore : Taken before ()) (htail : Taken tail e)
    (hafter : Taken after ()) :
    Taken (.dotted x xs before tail after) (Sexp.ofList (d :: items) e) := by
  intro ts rest stack hts hs
  obtain ⟨t, ts₁, rfl, ht, h₁⟩ := List.map_eq_cons_iff.1 hts
  -- the tokens split as the rule does: items, comments, the dot, the tail, comments
  obtain ⟨ts₂, ts₃, rfl, h₂, h₃⟩ := List.map_eq_append_iff.1 h₁
  obtain ⟨ts₄, ts₅, rfl, h₄, h₅⟩ := List.map_eq_append_iff.1 h₃
  obtain ⟨ts₆, ts₇, rfl, h₆, h₇⟩ := List.map_eq_append_iff.1 h₅
  obtain ⟨dot, ts₈, rfl, hdot, h₈⟩ := List.map_eq_cons_iff.1 h₇
  obtain ⟨ts₉, ts₁₀, rfl, h₉, h₁₀⟩ := List.map_eq_append_iff.1 h₈
  obtain ⟨ts₁₁, ts₁₂, rfl, h₁₁, h₁₂⟩ := List.map_eq_append_iff.1 h₁₀
  obtain ⟨close, ts₁₃, rfl, hclose, h₁₃⟩ := List.map_eq_cons_iff.1 h₁₂
  rw [List.map_eq_nil_iff] at h₁₃
  subst h₁₃
  -- the items before the dot end in the first one, so that the dot is accepted
  obtain ⟨e', items', hne⟩ : ∃ e' items', items.reverse ++ [d] = e' :: items' :=
    List.exists_cons_of_ne_nil (by simp)
  have hall : (e' :: items').reverse = d :: items := by rw [← hne]; simp
  simp only [List.cons_append, List.append_assoc]
  rw [readWith_listOpen ht hs, hx _ _ _ h₂ rfl]
  show readWith (.list [d] :: stack) _ = _
  rw [hxs _ _ _ .list [d] h₄ (fun _ => rfl) (fun _ _ => rfl), hne, hbefore _ _ _ h₆,
    readWith_dot hdot, htail _ _ _ h₉ rfl]
  show readWith (.closing (e' :: items') e :: stack) _ = _
  rw [hafter _ _ _ h₁₁, List.nil_append,
    readWith_close (d := Sexp.ofList (e' :: items').reverse e) hclose rfl, hall]

theorem taken_comment {x : Derivation .datum} {cs : Derivation .comments} {d : Sexp}
    (hx : Taken x d) (hcs : Taken cs ()) : Taken (.comment x cs) () := by
  intro ts rest stack hts
  obtain ⟨t, ts₁, rfl, ht, h₁⟩ := List.map_eq_cons_iff.1 hts
  obtain ⟨ts₂, ts₃, rfl, h₂, h₃⟩ := List.map_eq_append_iff.1 h₁
  rw [List.cons_append, List.append_assoc, readWith_comment ht, hx _ _ _ h₂ rfl]
  show readWith stack _ = _
  rw [hcs _ _ _ h₃]

theorem taken_data {x : Derivation .datum} {xs : Derivation .data} {d : Sexp} {items : List Sexp}
    (hx : Taken x d) (hxs : Taken xs items) : Taken (.data x xs) (d :: items) := by
  intro ts rest stack keep found hts hopen hkeep
  obtain ⟨ts₁, ts₂, rfl, h₁, h₂⟩ := List.map_eq_append_iff.1 hts
  rw [List.append_assoc, hx _ _ _ h₁ (hopen _), hkeep]
  show readWith (keep _ :: stack) _ = _
  rw [hxs _ _ _ keep _ h₂ hopen hkeep, List.reverse_cons, List.append_assoc,
    List.singleton_append]

/-- **Derived data are read**, whatever is open and whatever follows. -/
theorem readWith_derivation {n : Nonterminal} {x : Derivation n} {m : n.Meaning}
    (h : Derives x m) : Taken x m := by
  induction h with
  | datum _ _ ihs ihc =>
    intro ts rest stack hts hs
    obtain ⟨ts₁, ts₂, rfl, h₁, h₂⟩ := List.map_eq_append_iff.1 hts
    rw [List.append_assoc, ihs _ _ _ h₁, ihc _ _ _ h₂ hs]
  | atom d =>
    intro ts rest stack hts hs
    obtain ⟨t, ts₁, rfl, ht, h₁⟩ := List.map_eq_cons_iff.1 hts
    rw [List.map_eq_nil_iff] at h₁
    subst h₁
    exact readWith_atom ht hs
  | list _ _ ihx ihc =>
    exact taken_opening (fun _ => .list) ihx ihc rfl readWith_listOpen (fun _ _ _ => rfl)
      (fun _ _ _ _ => rfl) fun _ _ _ => by simp [closeTop]
  | dotted _ _ _ _ _ ihx ihxs ihb iht iha => exact taken_dotted ihx ihxs ihb iht iha
  | vector _ _ ihx ihc =>
    exact taken_opening (fun _ => .vector) ihx ihc rfl readWith_vectorOpen (fun _ _ _ => rfl)
      (fun _ _ _ _ => rfl) fun _ _ _ => by simp [closeTop]
  | @bytes xs cs data _ _ ihx ihc =>
    refine taken_opening (fun t => .bytes t.place) ihx ihc rfl readWith_bytesOpen (fun _ _ _ => rfl)
      (fun _ _ _ _ => rfl) fun t _ _ => ?_
    have hb : bytesOf t.place (data.map byteDatum) = .ok data := (bytesOf_eq_ok_iff _ _ _).2 rfl
    simp [closeTop, hb]
  | quotation keyword _ ih =>
    intro ts rest stack hts hs
    obtain ⟨t, ts₁, rfl, ht, h₁⟩ := List.map_eq_cons_iff.1 hts
    rw [List.cons_append, readWith_quotation ht hs, ih _ _ _ h₁ rfl]
    rfl
  | noComments =>
    intro ts rest stack hts
    rw [Derivation.kinds, List.map_eq_nil_iff] at hts
    rw [hts, List.nil_append]
  | comment _ _ ihx ihc => exact taken_comment ihx ihc
  | noData =>
    intro ts rest stack keep found hts _ _
    rw [Derivation.kinds, List.map_eq_nil_iff] at hts
    rw [hts, List.nil_append]
    rfl
  | data _ _ ihx ihxs => exact taken_data ihx ihxs

/-! ### What is read is derived -/

/-- One more datum after all others. -/
def Derivation.snoc : Derivation .data → Derivation .datum → Derivation .data
  | .noData, x => .data x .noData
  | .data y ys, x => .data y (ys.snoc x)

/-- One more comment after all others. -/
def Derivation.thenComment : Derivation .comments → Derivation .datum → Derivation .comments
  | .noComments, x => .comment x .noComments
  | .comment y cs, x => .comment y (cs.thenComment x)

theorem Derivation.kinds_snoc (xs : Derivation .data) (x : Derivation .datum) :
    (xs.snoc x).kinds = xs.kinds ++ x.kinds := by
  match xs with
  | .noData => simp [snoc, kinds]
  | .data y ys => simp [snoc, kinds, kinds_snoc ys x]

theorem Derivation.kinds_thenComment (cs : Derivation .comments) (x : Derivation .datum) :
    (cs.thenComment x).kinds = cs.kinds ++ .datumComment :: x.kinds := by
  match cs with
  | .noComments => simp [thenComment, kinds]
  | .comment y cs => simp [thenComment, kinds, kinds_thenComment cs x]

theorem Derives.snoc {xs : Derivation .data} {items : List Sexp} {x : Derivation .datum} {d : Sexp}
    (hxs : Derives xs items) (hx : Derives x d) : Derives (xs.snoc x) (items ++ [d]) := by
  match xs, hxs with
  | .noData, .noData => rw [Derivation.snoc]; exact .data hx .noData
  | .data y ys, .data hy hys => rw [Derivation.snoc]; exact .data hy (hys.snoc hx)

theorem Derives.thenComment {cs : Derivation .comments} {x : Derivation .datum} {d : Sexp}
    (hcs : Derives cs ()) (hx : Derives x d) : Derives (cs.thenComment x) () := by
  match cs, hcs with
  | .noComments, .noComments => rw [Derivation.thenComment]; exact .comment hx .noComments
  | .comment y cs, .comment hy hcs =>
    rw [Derivation.thenComment]
    exact .comment hy (hcs.thenComment hx)

/-- The tokens that lead to something open: from its opening to its last item, dot or tail. -/
inductive Started : Pending → List TokenKind → Prop where
  | list {xs : Derivation .data} {found : List Sexp} :
      Derives xs found.reverse → Started (.list found) (.listOpen :: xs.kinds)
  | dotted {x : Derivation .datum} {xs : Derivation .data} {before : Derivation .comments}
      {d : Sexp} {items found : List Sexp} :
      Derives x d → Derives xs items → Derives before () → found.reverse = d :: items →
      Started (.dotted found) (.listOpen :: (x.kinds ++ (xs.kinds ++ (before.kinds ++ [.dot]))))
  | closing {x tail : Derivation .datum} {xs : Derivation .data} {before : Derivation .comments}
      {d e : Sexp} {items found : List Sexp} :
      Derives x d → Derives xs items → Derives before () → Derives tail e →
      found.reverse = d :: items →
      Started (.closing found e)
        (.listOpen :: (x.kinds ++ (xs.kinds ++ (before.kinds ++ .dot :: tail.kinds))))
  | vector {xs : Derivation .data} {found : List Sexp} :
      Derives xs found.reverse → Started (.vector found) (.vectorOpen :: xs.kinds)
  | bytes {xs : Derivation .data} {found : List Sexp} (place : Option Position) :
      Derives xs found.reverse → Started (.bytes place found) (.bytesOpen :: xs.kinds)
  | quotation (keyword : String) : Started (.quotation keyword) [.quotation keyword]
  | comment : Started .comment [.datumComment]

/-- The tokens that lead to a stack.  Comments may stand after whatever is open, and only a comment
is opened after the tail of a list. -/
inductive Opened : List Pending → List TokenKind → Prop where
  | nil {cs : Derivation .comments} : Derives cs () → Opened [] cs.kinds
  | cons {p : Pending} {stack : List Pending} {ks₀ ks : List TokenKind}
      {cs : Derivation .comments} : Opened stack ks₀ → Started p ks → Derives cs () →
      (isClosing stack = true → p = .comment) → Opened (p :: stack) (ks₀ ++ (ks ++ cs.kinds))

theorem Opened.push {p : Pending} {stack : List Pending} {ks₀ ks : List TokenKind}
    (h : Opened stack ks₀) (hp : Started p ks) (hc : isClosing stack = true → p = .comment) :
    Opened (p :: stack) (ks₀ ++ ks) := by
  have := Opened.cons h hp .noComments hc
  rwa [Derivation.kinds, List.append_nil] at this

theorem Opened.thenComment {stack : List Pending} {ks : List TokenKind} {x : Derivation .datum}
    {d : Sexp} (h : Opened stack ks) (hx : Derives x d) :
    Opened stack (ks ++ .datumComment :: x.kinds) := by
  cases h with
  | nil hcs =>
    rw [← Derivation.kinds_thenComment]
    exact .nil (hcs.thenComment hx)
  | cons hs hp hcs hc =>
    rw [List.append_assoc, List.append_assoc, ← Derivation.kinds_thenComment]
    exact .cons hs hp (hcs.thenComment hx) hc

/-- What tokens lead to after a datum has been handed over: a derived datum, or a stack. -/
def Progress.Explained (ks : List TokenKind) : Progress → Prop
  | .done d => ∃ x : Derivation .datum, x.kinds = ks ∧ Derives x d
  | .more stack => Opened stack ks

theorem explained_complete {stack : List Pending} {ks : List TokenKind} {c : Derivation .core}
    {d : Sexp} (h : Opened stack ks) (hc : Derives c d) (hs : isClosing stack = false) :
    (complete d stack).Explained (ks ++ c.kinds) := by
  induction h generalizing c d with
  | nil hcs => exact ⟨.datum _ c, rfl, .datum hcs hc⟩
  | @cons p stack ks₀ ks cs hstack hp hcs hclosing ih =>
    -- the comments since the last item belong to the datum
    have hx : Derives (.datum cs c) d := .datum hcs hc
    have hk : ks₀ ++ (ks ++ cs.kinds) ++ c.kinds =
        ks₀ ++ (ks ++ (Derivation.datum cs c).kinds) := by
      simp [Derivation.kinds]
    rw [hk]
    cases hp with
    | list hxs =>
      rw [List.cons_append, ← Derivation.kinds_snoc]
      refine hstack.push (.list ?_) (fun h => by cases hclosing h)
      rw [List.reverse_cons]
      exact hxs.snoc hx
    | dotted hx₀ hxs hb hfound =>
      have hopened := hstack.push (.closing hx₀ hxs hb hx hfound) (fun h => by cases hclosing h)
      simpa [complete, Progress.Explained] using hopened
    | closing => cases hs
    | vector hxs =>
      rw [List.cons_append, ← Derivation.kinds_snoc]
      refine hstack.push (.vector ?_) (fun h => by cases hclosing h)
      rw [List.reverse_cons]
      exact hxs.snoc hx
    | bytes place hxs =>
      rw [List.cons_append, ← Derivation.kinds_snoc]
      refine hstack.push (.bytes place ?_) (fun h => by cases hclosing h)
      rw [List.reverse_cons]
      exact hxs.snoc hx
    | quotation keyword =>
      refine ih (.quotation keyword hx) ?_
      rw [Bool.eq_false_iff]
      intro h
      cases hclosing h
    | comment => exact hstack.thenComment hx

/-- A closing parenthesis completes a derived datum. -/
theorem opened_close {place : Option Position} {stack outer : List Pending} {ks : List TokenKind}
    {d : Sexp} (h : Opened stack ks) (hc : closeTop place stack = .ok (d, outer)) :
    ∃ (ks₀ : List TokenKind) (c : Derivation .core), ks ++ [TokenKind.close] = ks₀ ++ c.kinds ∧
      Opened outer ks₀ ∧ Derives c d ∧ isClosing outer = false := by
  cases h with
  | nil => cases hc
  | @cons p stack ks₀ ks cs hstack hp hcs hclosing =>
    have hopen (hp : p ≠ .comment) : isClosing stack = false := by
      rw [Bool.eq_false_iff]
      exact fun h => hp (hclosing h)
    cases hp with
    | list hxs =>
      cases hc
      exact ⟨ks₀, .list _ cs, by simp [Derivation.kinds], hstack, .list hxs hcs, hopen nofun⟩
    | dotted => cases hc
    | closing hx hxs hb ht hfound =>
      cases hc
      rw [hfound]
      exact ⟨ks₀, .dotted _ _ _ _ cs, by simp [Derivation.kinds], hstack,
        .dotted hx hxs hb ht hcs, hopen nofun⟩
    | vector hxs =>
      cases hc
      exact ⟨ks₀, .vector _ cs, by simp [Derivation.kinds], hstack, .vector hxs hcs, hopen nofun⟩
    | bytes start hxs =>
      simp only [closeTop] at hc
      split at hc <;> cases hc
      rename_i data hdata
      rw [(bytesOf_eq_ok_iff _ _ _).1 hdata] at hxs
      exact ⟨ks₀, .bytes _ cs, by simp [Derivation.kinds], hstack, .bytes hxs hcs, hopen nofun⟩
    | quotation => cases hc
    | comment => cases hc

/-- A dot is accepted after the first item of a list. -/
theorem opened_dot {items : List Sexp} {stack : List Pending} {ks : List TokenKind}
    (h : Opened (.list items :: stack) ks) (hne : items = [] → False) :
    Opened (.dotted items :: stack) (ks ++ [TokenKind.dot]) := by
  cases h with
  | @cons _ _ ks₀ _ cs hstack hp hcs hclosing =>
    cases hp with
    | @list xs _ hxs =>
      obtain ⟨d, items', hitems⟩ : ∃ d items', items.reverse = d :: items' :=
        List.exists_cons_of_ne_nil (by simpa using hne)
      -- the rule wants one item before the dot, and the first of the list is it
      rw [hitems] at hxs
      match xs, hxs with
      | .data x xs, .data hx hxs =>
        have hopened := hstack.push (.dotted hx hxs hcs hitems) (fun h => by cases hclosing h)
        simpa [Derivation.kinds] using hopened

/-- What reading the tokens `ts` after the tokens `ks` has led to. -/
def Traced (ks : List TokenKind) (ts : List Token) : Except ReadError Sexp × List Token → Prop
  | (.ok d, rest) => ∃ pre, ts = pre ++ rest ∧
      ∃ x : Derivation .datum, x.kinds = ks ++ pre.map Token.kind ∧ Derives x d
  | (.error e, rest) =>
      (e = .endOfInput →
        ∃ cs : Derivation .comments, cs.kinds = ks ++ ts.map Token.kind ∧ Derives cs ()) ∧
      (e.isIncomplete = true → rest = [])

theorem Traced.cons {ks : List TokenKind} {t : Token} {ts : List Token}
    {r : Except ReadError Sexp × List Token} (h : Traced (ks ++ [t.kind]) ts r) :
    Traced ks (t :: ts) r := by
  match r with
  | (.ok d, rest) =>
    obtain ⟨pre, rfl, x, hx, hd⟩ := h
    exact ⟨t :: pre, rfl, x, by simpa using hx, hd⟩
  | (.error e, rest) =>
    refine ⟨fun he => ?_, h.2⟩
    obtain ⟨cs, hk, hcs⟩ := h.1 he
    exact ⟨cs, by simpa using hk, hcs⟩

theorem traced_malformed {ks : List TokenKind} {ts rest : List Token} {e : ReadError}
    {fault : SyntaxFault} (he : e = .malformed fault) : Traced ks ts (.error e, rest) := by
  subst he
  exact ⟨nofun, nofun⟩

theorem bytesOf_error {place : Option Position} {items : List Sexp} {e : ReadError}
    (h : bytesOf place items = .error e) : ∃ fault, e = .malformed fault := by
  induction items with
  | nil => cases h
  | cons d items ih =>
    unfold bytesOf at h
    split at h
    · cases h
      exact ⟨_, rfl⟩
    · split at h
      · cases h
      · rename_i e' he'
        cases h
        exact ih he'

theorem closeTop_error {place : Option Position} {stack : List Pending} {e : ReadError}
    (h : closeTop place stack = .error e) : ∃ fault, e = .malformed fault := by
  unfold closeTop at h
  split at h
  · cases h
  · cases h
  · cases h
  · split at h
    · cases h
    · rename_i e' he'
      cases h
      exact bytesOf_error he'
  · cases h
    exact ⟨_, rfl⟩

theorem close_refused {place : Option Position} {stack : List Pending} {e : ReadError}
    {taken : Bool} (h : Turn.close (closeTop place stack) = .refused e taken) :
    ∃ fault, e = .malformed fault := by
  cases hclose : closeTop place stack with
  | error e' =>
    rw [hclose] at h
    cases h
    exact closeTop_error hclose
  | ok closed =>
    rw [hclose] at h
    cases h

theorem start_refused {place : Option Position} {stack : List Pending} {kind : TokenKind}
    {e : ReadError} {taken : Bool} (h : Turn.start place stack kind = .refused e taken) :
    ∃ fault, e = .malformed fault := by
  cases kind <;> cases h
  all_goals exact ⟨_, rfl⟩

/-- A token that is refused makes the text malformed. -/
theorem turn_refused {t : Token} {stack : List Pending} {e : ReadError} {taken : Bool}
    (h : turn t stack = .refused e taken) : ∃ fault, e = .malformed fault := by
  unfold turn at h
  split at h
  · cases h
  · exact close_refused h
  · cases h
    exact ⟨_, rfl⟩
  · cases h
  · split_ifs at h
    · cases h
      exact ⟨_, rfl⟩
    · exact start_refused h

theorem explained_close {place : Option Position} {stack : List Pending} {ks : List TokenKind}
    {p : Progress} (h : Opened stack ks) (hclose : Turn.close (closeTop place stack) = .goOn p) :
    p.Explained (ks ++ [.close]) := by
  cases hc : closeTop place stack with
  | error e =>
    rw [hc] at hclose
    cases hclose
  | ok closed =>
    obtain ⟨d, outer⟩ := closed
    rw [hc] at hclose
    cases hclose
    obtain ⟨ks₀, c, hk, hopen, hcore, hs⟩ := opened_close h hc
    rw [hk]
    exact explained_complete hopen hcore hs

theorem explained_start {place : Option Position} {stack : List Pending} {ks : List TokenKind}
    {kind : TokenKind} {p : Progress} (h : Opened stack ks) (hs : isClosing stack = false)
    (hstart : Turn.start place stack kind = .goOn p) : p.Explained (ks ++ [kind]) := by
  have hnil : Derives .noData ([] : List Sexp).reverse := .noData
  have hopen : ¬ isClosing stack = true := by simp [hs]
  cases kind <;> cases hstart
  case listOpen => exact h.push (.list hnil) fun hc => absurd hc hopen
  case vectorOpen => exact h.push (.vector hnil) fun hc => absurd hc hopen
  case bytesOpen => exact h.push (.bytes place hnil) fun hc => absurd hc hopen
  case quotation keyword => exact h.push (.quotation keyword) fun hc => absurd hc hopen
  case atom d => exact explained_complete h (.atom d) hs

/-- **One turn** is explained by the tokens so far and the one that is taken. -/
theorem turn_explained {t : Token} {stack : List Pending} {ks : List TokenKind} {p : Progress}
    (h : Opened stack ks) (hturn : turn t stack = .goOn p) : p.Explained (ks ++ [t.kind]) := by
  unfold turn at hturn
  split at hturn
  · rename_i ht
    cases hturn
    rw [ht]
    exact h.push .comment (fun _ => rfl)
  · rename_i ht
    rw [ht]
    exact explained_close h hturn
  · cases hturn
  · rename_i items stack hne ht
    cases hturn
    rw [ht]
    exact opened_dot h hne
  · -- nothing is opened and no atom stands after the tail of a list
    split_ifs at hturn with hs
    exact explained_start h (Bool.eq_false_iff.2 hs) hturn

/-- **What is read is derived**: the tokens so far and those that are read form the datum. -/
theorem traced_readWith {stack : List Pending} {ts : List Token} {ks : List TokenKind}
    (h : Opened stack ks) : Traced ks ts (readWith stack ts) := by
  -- the tokens so far are always those that the stack accounts for
  induction ts generalizing stack ks with
  | nil =>
    rw [readWith]
    cases h with
    | nil hcs => exact ⟨fun _ => ⟨_, by simp, hcs⟩, fun _ => rfl⟩
    | cons => exact ⟨nofun, fun _ => rfl⟩
  | cons t rest ih =>
    rw [readWith_cons]
    cases hturn : turn t stack with
    | refused e taken =>
      obtain ⟨fault, rfl⟩ := turn_refused hturn
      cases taken <;> exact traced_malformed rfl
    | goOn p =>
      have hp := turn_explained h hturn
      cases p with
      | done d =>
        obtain ⟨x, hx, hd⟩ := hp
        exact ⟨[t], rfl, x, hx, hd⟩
      | more stack' => exact Traced.cons (ih hp)

/-! ### The tokens determine the derivation -/

/-- The token ends the items of a list or vector. -/
def TokenKind.endsItems : TokenKind → Bool
  | .close | .dot => true
  | _ => false

theorem exists_kinds_core (c : Derivation .core) :
    ∃ k ks, c.kinds = k :: ks ∧ k.startsCore = true := by
  cases c <;> exact ⟨_, _, rfl, rfl⟩

/-- Comments before something else are determined by the tokens. -/
def CommentsDetermined (cs : Derivation .comments) : Prop :=
  ∀ (cs' : Derivation .comments) k rest k' rest',
    k ≠ TokenKind.datumComment → k' ≠ TokenKind.datumComment →
    cs.kinds ++ k :: rest = cs'.kinds ++ k' :: rest' → cs = cs' ∧ k :: rest = k' :: rest'

/-- A datum is determined by the tokens, and not to be taken for comments before the end of
items. -/
def DatumDetermined (x : Derivation .datum) : Prop :=
  (∀ (x' : Derivation .datum) rest rest',
    x.kinds ++ rest = x'.kinds ++ rest' → x = x' ∧ rest = rest') ∧
  ∀ (cs : Derivation .comments) k rest rest', TokenKind.endsItems k = true →
    x.kinds ++ rest ≠ cs.kinds ++ k :: rest'

/-- Items with the comments after them are determined by the tokens. -/
def DataDetermined (xs : Derivation .data) : Prop :=
  ∀ cs, CommentsDetermined cs → ∀ (xs' : Derivation .data) (cs' : Derivation .comments)
    k rest k' rest', TokenKind.endsItems k = true → TokenKind.endsItems k' = true →
    xs.kinds ++ (cs.kinds ++ k :: rest) = xs'.kinds ++ (cs'.kinds ++ k' :: rest') →
    xs = xs' ∧ cs = cs' ∧ k :: rest = k' :: rest'

/-- The tokens determine the derivation and where it ends. -/
def Determined : {n : Nonterminal} → Derivation n → Prop
  | .datum, x => DatumDetermined x
  | .core, c => ∀ (c' : Derivation .core) rest rest',
      c.kinds ++ rest = c'.kinds ++ rest' → c = c' ∧ rest = rest'
  | .comments, cs => CommentsDetermined cs
  | .data, xs => DataDetermined xs

theorem ne_comment_of_endsItems {k : TokenKind} (h : k.endsItems = true) : k ≠ .datumComment := by
  rintro rfl
  cases h

theorem ne_comment_of_startsCore {k : TokenKind} (h : k.startsCore = true) :
    k ≠ .datumComment := by
  rintro rfl
  cases h

theorem ne_of_endsItems_of_startsCore {k k' : TokenKind} (h : k.endsItems = true)
    (h' : k'.startsCore = true) : k ≠ k' := by
  rintro rfl
  cases k <;> simp [TokenKind.endsItems, TokenKind.startsCore] at h h'

theorem datumDetermined {cs : Derivation .comments} {c : Derivation .core}
    (hcs : CommentsDetermined cs) (hc : Determined c) : DatumDetermined (.datum cs c) := by
  obtain ⟨k, ks, hk, hstart⟩ := exists_kinds_core c
  constructor
  · rintro ⟨cs', c'⟩ rest rest' h
    -- the comments end where a token starts something else, which is the same place for both
    obtain ⟨k', ks', hk', hstart'⟩ := exists_kinds_core c'
    simp only [Derivation.kinds, List.append_assoc] at h
    have h' := h
    rw [hk, hk'] at h'
    obtain ⟨rfl, -⟩ := hcs cs' _ _ _ _ (ne_comment_of_startsCore hstart)
      (ne_comment_of_startsCore hstart') h'
    obtain ⟨rfl, hrest⟩ := hc c' _ _ (List.append_cancel_left h)
    exact ⟨rfl, hrest⟩
  · intro cs' k' rest rest' hend h
    simp only [Derivation.kinds, List.append_assoc, hk] at h
    obtain ⟨-, h⟩ := hcs cs' _ _ _ _ (ne_comment_of_startsCore hstart)
      (ne_comment_of_endsItems hend) h
    rw [List.cons.injEq] at h
    exact ne_of_endsItems_of_startsCore hend hstart h.1.symm

theorem dataDetermined_noData : DataDetermined .noData := by
  intro cs hcs xs' cs' k rest k' rest' hend hend' h
  cases xs' with
  | noData =>
    obtain ⟨rfl, hk⟩ := hcs cs' _ _ _ _ (ne_comment_of_endsItems hend)
      (ne_comment_of_endsItems hend') h
    exact ⟨rfl, rfl, hk⟩
  | data x' xs' =>
    cases x' with
    | datum cs₁ c =>
      obtain ⟨k₁, ks, hk, hstart⟩ := exists_kinds_core c
      simp only [Derivation.kinds, List.append_assoc, hk] at h
      obtain ⟨-, h⟩ := hcs cs₁ _ _ _ _ (ne_comment_of_endsItems hend)
        (ne_comment_of_startsCore hstart) h
      rw [List.cons.injEq] at h
      exact absurd h.1 (ne_of_endsItems_of_startsCore hend hstart)

theorem dataDetermined_data {x : Derivation .datum} {xs : Derivation .data}
    (hx : DatumDetermined x) (hxs : DataDetermined xs) : DataDetermined (.data x xs) := by
  intro cs hcs xs' cs' k rest k' rest' hend hend' h
  simp only [Derivation.kinds, List.append_assoc] at h
  cases xs' with
  | noData => exact absurd h (hx.2 cs' k' _ _ hend')
  | data x' xs' =>
    simp only [Derivation.kinds, List.append_assoc] at h
    obtain ⟨rfl, hitems⟩ := hx.1 x' _ _ h
    obtain ⟨rfl, rfl, hk⟩ := hxs cs hcs xs' cs' k rest k' rest' hend hend' hitems
    exact ⟨rfl, rfl, hk⟩

/-- The three containers of plain items differ in their opening only. -/
theorem items_determined {xs xs' : Derivation .data} {cs cs' : Derivation .comments}
    {rest rest' : List TokenKind} (hxs : DataDetermined xs) (hcs : CommentsDetermined cs)
    (h : xs.kinds ++ (cs.kinds ++ .close :: rest) = xs'.kinds ++ (cs'.kinds ++ .close :: rest')) :
    xs = xs' ∧ cs = cs' ∧ rest = rest' := by
  obtain ⟨rfl, rfl, hk⟩ := hxs cs hcs xs' cs' _ _ _ _ rfl rfl h
  rw [List.cons.injEq] at hk
  exact ⟨rfl, rfl, hk.2⟩

/-- A list without a dot has not the tokens of one with a dot. -/
theorem list_ne_dotted {x : Derivation .datum} {xs ys : Derivation .data}
    {cs before : Derivation .comments} {rest rest' : List TokenKind} (hxs : DataDetermined xs)
    (hcs : CommentsDetermined cs) :
    xs.kinds ++ (cs.kinds ++ .close :: rest) ≠
      x.kinds ++ (ys.kinds ++ (before.kinds ++ .dot :: rest')) := by
  intro h
  rw [← List.append_assoc x.kinds] at h
  obtain ⟨-, -, hk⟩ := hxs cs hcs (.data x ys) before _ _ _ _ rfl rfl h
  cases hk

theorem determined_list {xs : Derivation .data} {cs : Derivation .comments}
    (hxs : DataDetermined xs) (hcs : CommentsDetermined cs) : Determined (.list xs cs) := by
  intro c' rest rest' h
  -- only the two rules for lists start with the same token
  cases c' <;> simp [Derivation.kinds] at h
  case list xs' cs' =>
    obtain ⟨rfl, rfl, hrest⟩ := items_determined hxs hcs h
    exact ⟨rfl, hrest⟩
  case dotted => exact absurd h (list_ne_dotted hxs hcs)

theorem determined_dotted {x tail : Derivation .datum} {xs : Derivation .data}
    {before after : Derivation .comments} (hx : DatumDetermined x) (hxs : DataDetermined xs)
    (hbefore : CommentsDetermined before) (htail : DatumDetermined tail)
    (hafter : CommentsDetermined after) : Determined (.dotted x xs before tail after) := by
  intro c' rest rest' h
  have hitems : DataDetermined (.data x xs) := dataDetermined_data hx hxs
  cases c' <;> simp [Derivation.kinds] at h
  case list xs' cs' =>
    -- the items end at a dot here and at a parenthesis there
    rw [← List.append_assoc x.kinds] at h
    obtain ⟨-, -, hk⟩ := hitems before hbefore xs' cs' _ _ _ _ rfl rfl h
    cases hk
  case dotted x' xs' before' tail' after' =>
    rw [← List.append_assoc x.kinds, ← List.append_assoc x'.kinds] at h
    obtain ⟨hx, rfl, hk⟩ := hitems before hbefore (.data x' xs') before' _ _ _ _ rfl rfl h
    cases hx
    rw [List.cons.injEq] at hk
    obtain ⟨rfl, hrest⟩ := htail.1 tail' _ _ hk.2
    obtain ⟨rfl, hclose⟩ := hafter after' .close _ .close _ nofun nofun hrest
    rw [List.cons.injEq] at hclose
    exact ⟨rfl, hclose.2⟩

theorem commentsDetermined_noComments : CommentsDetermined .noComments := by
  intro cs' k rest k' rest' hk hk' h
  cases cs' with
  | noComments => exact ⟨rfl, h⟩
  | comment x' cs' =>
    simp only [Derivation.kinds, List.nil_append, List.cons_append, List.cons.injEq] at h
    exact absurd h.1 hk

theorem commentsDetermined_comment {x : Derivation .datum} {cs : Derivation .comments}
    (hx : DatumDetermined x) (hcs : CommentsDetermined cs) :
    CommentsDetermined (.comment x cs) := by
  intro cs' k rest k' rest' hk hk' h
  cases cs' with
  | noComments =>
    simp only [Derivation.kinds, List.nil_append, List.cons_append, List.cons.injEq] at h
    exact absurd h.1.symm hk'
  | comment x' cs' =>
    simp only [Derivation.kinds, List.cons_append, List.append_assoc, List.cons.injEq] at h
    obtain ⟨rfl, hmore⟩ := hx.1 x' _ _ h.2
    obtain ⟨rfl, hrest⟩ := hcs cs' _ _ _ _ hk hk' hmore
    exact ⟨rfl, hrest⟩

/-- **The tokens determine the derivation** and where it ends. -/
theorem unique_derivation {n : Nonterminal} (x : Derivation n) : Determined x := by
  induction x with
  | datum cs c ihs ihc => exact datumDetermined ihs ihc
  | atom d =>
    intro c' rest rest' h
    cases c' <;> simp [Derivation.kinds] at h ⊢
    exact h
  | list xs cs ihx ihc => exact determined_list ihx ihc
  | dotted x xs before tail after ihx ihxs ihb iht iha =>
    exact determined_dotted ihx ihxs ihb iht iha
  | vector xs cs ihx ihc =>
    intro c' rest rest' h
    cases c' <;> simp [Derivation.kinds] at h
    case vector xs' cs' =>
      obtain ⟨rfl, rfl, hrest⟩ := items_determined ihx ihc h
      exact ⟨rfl, hrest⟩
  | bytes xs cs ihx ihc =>
    intro c' rest rest' h
    cases c' <;> simp [Derivation.kinds] at h
    case bytes xs' cs' =>
      obtain ⟨rfl, rfl, hrest⟩ := items_determined ihx ihc h
      exact ⟨rfl, hrest⟩
  | quotation keyword x ih =>
    intro c' rest rest' h
    cases c' <;> simp [Derivation.kinds] at h
    case quotation keyword' x' =>
      obtain ⟨rfl, h⟩ := h
      obtain ⟨rfl, hrest⟩ := ih.1 x' _ _ h
      exact ⟨rfl, hrest⟩
  | noComments => exact commentsDetermined_noComments
  | comment x cs ihx ihc => exact commentsDetermined_comment ihx ihc
  | noData => exact dataDetermined_noData
  | data x xs ihx ihxs => exact dataDetermined_data ihx ihxs

/-! ### Reading and the grammar -/

/-- **Reading follows the grammar.**  A datum is read exactly if the tokens that are taken derive
it; the derivation and the rest are unique; no datum is left exactly if the tokens derive comments
only; and a text is incomplete only after its last token. -/
theorem read_iff_derivation (ts : List Token) :
    (∀ d rest, read ts = (.ok d, rest) ↔
      ∃ pre, ts = pre ++ rest ∧
        ∃ x : Derivation .datum, x.kinds = pre.map Token.kind ∧ Derives x d) ∧
    (∀ (x x' : Derivation .datum) (pre rest pre' rest' : List Token),
      ts = pre ++ rest → ts = pre' ++ rest' →
      x.kinds = pre.map Token.kind → x'.kinds = pre'.map Token.kind →
      x = x' ∧ pre = pre' ∧ rest = rest') ∧
    ((read ts).1 = .error .endOfInput ↔
      ∃ cs : Derivation .comments, cs.kinds = ts.map Token.kind ∧ Derives cs ()) ∧
    (∀ e rest, read ts = (.error e, rest) → e.isIncomplete = true → rest = []) := by
  have htraced : Traced [] ts (read ts) := traced_readWith (.nil .noComments)
  refine ⟨fun d rest => ⟨fun h => ?_, ?_⟩, ?_, ⟨fun h => ?_, ?_⟩, fun e rest h he => ?_⟩
  · rw [h] at htraced
    exact htraced
  · rintro ⟨pre, rfl, x, hx, hd⟩
    exact readWith_derivation hd pre rest [] hx.symm rfl
  · intro x x' pre rest pre' rest' hts hts' hx hx'
    have hk : x.kinds ++ rest.map Token.kind = x'.kinds ++ rest'.map Token.kind := by
      rw [hx, hx', ← List.map_append, ← List.map_append, ← hts, hts']
    obtain ⟨rfl, -⟩ := (unique_derivation x).1 x' _ _ hk
    have hlen : pre.length = pre'.length := by
      simpa using congrArg List.length (hx.symm.trans hx')
    obtain ⟨hpre, hrest⟩ := List.append_inj (hts.symm.trans hts') hlen
    exact ⟨rfl, hpre, hrest⟩
  · have hr : read ts = (.error .endOfInput, (read ts).2) := by rw [← h]
    rw [hr] at htraced
    exact htraced.1 rfl
  · rintro ⟨cs, hk, hcs⟩
    have := readWith_derivation hcs ts [] [] hk.symm
    rw [List.append_nil] at this
    rw [read, this]
    rfl
  · rw [h] at htraced
    exact htraced.2 he

end Scheme.Reader
