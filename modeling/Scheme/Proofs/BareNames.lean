import Mathlib
import Scheme.Proofs.Quotation

/-!
# Names without bars

The printer decides from a name alone whether to put it between bars, and the reader decides from a
text what it means.  The two agree: a name is written without bars exactly if the bare name reads
back as its symbol.  A text can name a symbol in two ways, by a word, which is then the name and
needs no bars, or between bars, which take up more of the text than the name has characters.  So no
text reads as the symbol that it would name itself, unless it is a word.

* `needsBars_of_classify`: the symbol of a word needs no bars;
* `length_lt_of_symbolRest`: a name between bars is shorter than its text;
* `symbol_of_mem_scan`: the symbols among the tokens of a text;
* `readOne_symbol_iff`: the names that are written without bars are those that read back.
-/

namespace Scheme

namespace Reader

/-! ### Words -/

/-- A word that is a symbol is the name of the symbol, and it needs no bars. -/
theorem needsBars_of_atomOfWord {w : List Char} {place : Option Position} {name : String}
    (hw : ∀ c ∈ w, isNameChar c = true) (hne : w ≠ []) (hdot : w ≠ ['.'])
    (h : atomOfWord w place = .ok (.atom (.symbol name))) : needsBars name.toList = false := by
  unfold atomOfWord at h
  split at h
  · split at h <;> cases h
  · cases hnumber : Number.parseChars w with
    | some n =>
      rw [hnumber] at h
      cases h
    | none =>
      rw [hnumber] at h
      simp only at h
      split_ifs at h with hhead
      · cases h
      · cases h
        simpa [needsBars, hne, hdot, hhead, hnumber] using hw

theorem hashToken?_ne_atom (gs : List Glyph) (d : Sexp) (count : Nat) :
    hashToken? gs ≠ some (.atom d, count) := by
  unfold hashToken?
  split
  case h_4 => split_ifs <;> nofun
  all_goals nofun

/-- A word means a symbol only if it is no mark. -/
theorem needsBars_of_classify {w : List Char} {place : Option Position} {gs : List Glyph}
    {name : String} {count : Nat} (hw : ∀ c ∈ w, isNameChar c = true) (hne : w ≠ [])
    (h : classify w place gs = .ok (.atom (.symbol name), count)) :
    needsBars name.toList = false := by
  unfold classify at h
  simp only at h
  split_ifs at h with hdot htrue hfalse hhash hvu8 hchar
  · cases h
  · cases h
  · cases h
  · cases hfound : hashToken? gs with
    | none =>
      rw [hfound] at h
      exact needsBars_of_atomOfWord hw hne hdot (atomOfWord_of_plainWord h).1
    | some found =>
      rw [hfound] at h
      cases h
      exact absurd hfound (hashToken?_ne_atom gs _ count)
  · cases h
  · split at h <;> cases h
  · exact needsBars_of_atomOfWord hw hne hdot (atomOfWord_of_plainWord h).1

/-! ### Names between bars -/

theorem length_le_of_symbolEscape {stop : Position} {gs : List Glyph} {cs : List Char} {count : Nat}
    (h : symbolEscape stop gs = .ok (cs, count)) : cs.length ≤ count := by
  cases gs with
  | nil => cases h
  | cons g gs =>
    rw [symbolEscape] at h
    split_ifs at h with hplain hhex
    · cases h
      exact le_rfl
    · split at h
      · cases h
        simp
      · cases h
    · cases h

/-- With its closing quote, a text is longer than what it stands for. -/
theorem length_lt_of_quotedRest {quote : Char}
    {escape : List Glyph → Except ReadError (List Char × Nat)}
    (hescape : ∀ gs cs count, escape gs = .ok (cs, count) → cs.length ≤ count) {gs : List Glyph}
    {cs : List Char} {count : Nat} (h : quotedRest quote escape gs = .ok (cs, count)) :
    cs.length < gs.length := by
  fun_induction quotedRest quote escape gs generalizing cs count with
  | case1 => cases h
  | case2 g gs hquote =>
    cases h
    simp
  | case3 => cases h
  | case4 g gs _ _ first taken hfirst more rest hmore ih =>
    cases h
    have hle := hescape gs first taken hfirst
    have hlt := ih hmore
    simp only [List.length_append, List.length_drop, List.length_cons] at hlt ⊢
    omega
  | case5 => cases h
  | case6 g gs _ _ more rest hmore ih =>
    cases h
    simpa using ih hmore
  | case7 => cases h

/-- A name between bars is shorter than the text after its opening bar. -/
theorem length_lt_of_symbolRest {stop : Position} {gs : List Glyph} {cs : List Char} {count : Nat}
    (h : symbolRest stop gs = .ok (cs, count)) : cs.length < gs.length :=
  length_lt_of_quotedRest (fun _ _ _ => length_le_of_symbolEscape) h

/-! ### The symbols of a text -/

/-- A lexical unit that is a symbol needs no bars, or its name is shorter than the text after its
first character. -/
theorem symbol_of_meaning {stop : Position} {place : Option Position} {c : Char}
    {more gs : List Glyph} {name : String} {count : Nat}
    (hmore : ∀ g ∈ more, isNameChar g.char = true)
    (h : meaning stop place c more gs = .ok (some (.atom (.symbol name)), count)) :
    needsBars name.toList = false ∨ name.toList.length < gs.length := by
  unfold meaning at h
  split_ifs at h with hname
  · split at h
    · rename_i kind taken hclassify
      cases h
      refine Or.inl (needsBars_of_classify ?_ (List.cons_ne_nil _ _) hclassify)
      simpa [hname] using hmore
    · cases h
  · refine Or.inr ?_
    unfold delimiter at h
    split at h
    case h_7 => split_ifs at h <;> cases h
    case h_8 => split at h <;> cases h
    case h_9 =>
      split at h
      · rename_i cs taken hrest
        cases h
        rw [String.toList_ofList]
        exact length_lt_of_symbolRest hrest
      · cases h
    all_goals cases h

theorem isNameChar_of_mem_wordRest {g g' : Glyph} {gs : List Glyph} (h : g' ∈ wordRest g gs) :
    isNameChar g'.char = true := by
  unfold wordRest at h
  split_ifs at h
  · have hchar := List.mem_takeWhile_imp h
    exact hchar
  · cases h

/-- A symbol among the tokens of a text needs no bars, or its name is shorter than the text. -/
theorem symbol_of_mem_scan {stop : Position} {gs : List Glyph} {ts : List Token} {t : Token}
    {name : String} (h : scan stop gs = .ok ts) (ht : t ∈ ts)
    (hkind : t.kind = .atom (.symbol name)) :
    needsBars name.toList = false ∨ name.toList.length < gs.length := by
  obtain ⟨g, gs', rest, hlen, hlexeme⟩ := exists_lexeme_of_mem_scan h ht
  obtain ⟨kind, count, hmeaning, hsome, -⟩ := meaning_of_lexeme hlexeme
  obtain rfl : some (.atom (.symbol name)) = kind := by rw [← hsome, Option.map_some, hkind]
  refine (symbol_of_meaning (fun g' => isNameChar_of_mem_wordRest) hmeaning).imp_right fun hlt => ?_
  simp only [List.length_drop, List.length_cons] at hlt hlen
  omega

/-- A datum that is a symbol is derived from a token of its own. -/
theorem mem_kinds_of_derives {x : Derivation .datum} {name : String}
    (h : Derives x (.symbol name)) :
    .atom (.symbol name) ∈ x.kinds := by
  generalize hd : (Datum.symbol name : Sexp) = d at h
  cases h with
  | datum _ hc =>
    cases hc with
    | atom => simp [Derivation.kinds]
    | @list _ _ items => cases items <;> cases hd
    | _ => cases hd

/-! ### Reading names -/

/-- A text has at least as many characters as it has glyphs: a byte-order mark is skipped. -/
theorem length_glyphs_le (s : String) : (Source.ofString s).glyphs.length ≤ s.toList.length := by
  have hraw := congrArg List.length (raw_ofScript (Script.ofString s))
  rw [raw, List.length_map] at hraw
  refine hraw.trans_le ((Script.length_content_le _).trans_eq ?_)
  rw [Script.ofString, List.length_map]

/-- A name that needs no bars reads as its symbol. -/
theorem readOne_of_needsBars {s : String} (h : needsBars s.toList = false) :
    readOne s = .ok (.symbol s) := by
  have htext : symbolText .written s.toList = s.toList := by simp [symbolText, h]
  have hyields : Yields s.toList [.atom (.symbol s)] [] := by
    simpa [htext] using @yields_symbol s [] (by simp [WordEnds])
  have hprintable : Printable s.toList := htext ▸ printable_symbolText s.toList
  have hread := @readOne_of_yields _ (.datum .noComments (.atom (.symbol s))) _ hprintable hyields
    (.datum .noComments (.atom _))
  rwa [String.ofList_toList] at hread

/-- A text that reads as the symbol that it names itself needs no bars. -/
theorem needsBars_of_readOne {s : String} (h : readOne s = .ok (.symbol s)) :
    needsBars s.toList = false := by
  obtain ⟨ts, rest, x, htokens, hkinds, hx⟩ := derivation_of_readOne h
  rw [tokens_eq_scan] at htokens
  split at htokens
  · cases htokens
  · have hmem := mem_kinds_of_derives hx
    rw [hkinds] at hmem
    obtain ⟨t, ht, hkind⟩ := List.mem_map.1 hmem
    obtain hbare | hlt := symbol_of_mem_scan htokens (List.mem_append_left rest ht) hkind
    · exact hbare
    · have hle := length_glyphs_le s
      omega

theorem length_barChar_pos (c : Char) : 0 < (barChar c).length := by
  unfold barChar
  split_ifs <;> simp [hexEscape]

/-- No name is its own text between bars. -/
theorem barred_ne (name : List Char) : barred name ≠ name := by
  have hle : name.length ≤ (name.flatMap barChar).length := by
    have hsum := List.length_le_sum_of_one_le (name.map fun c => (barChar c).length) fun n hn => by
      obtain ⟨c, -, rfl⟩ := List.mem_map.1 hn
      exact length_barChar_pos c
    rwa [List.length_map, ← List.length_flatMap] at hsum
  intro heq
  have hlen := congrArg List.length heq
  simp only [barred, List.length_append, List.length_cons, List.length_nil] at hlen
  omega

/-- **Bars stand exactly where they are needed.**  A name needs no bars if and only if its text
reads as its symbol, so the printer writes the bare name if that reads back, and the name between
bars if not. -/
theorem readOne_symbol_iff (s : String) :
    (needsBars s.toList = false ↔ readOne s = .ok (.symbol s)) ∧
      ((Datum.symbol s : Sexp).write = s ↔ readOne s = .ok (.symbol s)) ∧
      ((Datum.symbol s : Sexp).write = String.ofList (barred s.toList) ↔
        readOne s ≠ .ok (.symbol s)) := by
  have hread : needsBars s.toList = false ↔ readOne s = .ok (.symbol s) :=
    ⟨readOne_of_needsBars, needsBars_of_readOne⟩
  have hwrite : (Datum.symbol s : Sexp).write = String.ofList (symbolText .written s.toList) := by
    show String.ofList (symbolText .written s.toList ++ []) = _
    rw [List.append_nil]
  have hne : String.ofList (barred s.toList) ≠ s := by
    intro heq
    have hlist := congrArg String.toList heq
    rw [String.toList_ofList] at hlist
    exact barred_ne s.toList hlist
  refine ⟨hread, ?_, ?_⟩
  · rw [← hread, hwrite, symbolText]
    cases needsBars s.toList <;> simp [hne]
  · rw [ne_eq, ← hread, hwrite, symbolText]
    cases needsBars s.toList <;> simp [hne.symm]

end Reader

end Scheme
