import Scheme.Datum.Name
import Scheme.Number.Literal
import Scheme.Reader.Error
import Scheme.Reader.Token

/-!
# Splitting a text into tokens

The lexer looks one character ahead: the character after the current one has been read already.  A
fault of a character is found when the character is read, so it precedes every complaint about a
word that starts later, and it goes with the place of the word that is being read.

* `stringRest`, `symbolRest`: the rest of a string literal and of a symbol between bars;
* `classify`: what a word means;
* `tokens`: all tokens of a text.
-/

namespace Scheme.Reader

/-- The position of the first glyph, or the end of the text. -/
def lookahead (stop : Position) : List Glyph → Position
  | [] => stop
  | g :: _ => g.position

/-- The first character that is still to come. -/
def peek (gs : List Glyph) : Option Char := gs.head?.map (·.char)

/-- The first fault among the glyphs that are read while `count` glyphs of `gs` are passed: those
after the first, which has been read before. -/
def faultWithin (gs : List Glyph) (count : Nat) : Option Fault :=
  (gs.tail.take count).findSome? (·.fault)

/-- The failure of a text with the given fault at a place. -/
def malformedAt {α : Type} (fault : Option Position → SyntaxFault) (place : Option Position) :
    Except ReadError α :=
  .error (.malformed (fault place))

/-! ### Escapes -/

/-- The hexadecimal digits in front of `gs`, at most `limit` of them. -/
def hexDigits (limit : Nat) (gs : List Glyph) : List Char :=
  ((gs.take limit).map (·.char)).takeWhile Text.isHexDigit

/-- Read what follows the letter `kind` of a hexadecimal escape: the character, and the number of
glyphs.  The letter `x` takes up to eight digits and a semicolon, `u` up to four digits and `U` up
to eight. -/
def hexEscapeRest (stop : Position) (kind : Char) (gs : List Glyph) :
    Except ReadError (Char × Nat) :=
  let digits := hexDigits (if kind = 'u' then 4 else 8) gs
  let rest := gs.drop digits.length
  let finish (count : Nat) : Except ReadError (Char × Nat) :=
    match Text.hexChar? digits with
    | some c => .ok (c, count)
    | none => malformedAt (.badHexEscape kind) (lookahead stop (gs.drop count))
  if kind = 'x' then
    match peek rest with
    | none => .error .incomplete
    | some ';' => finish (digits.length + 1)
    | some _ => malformedAt .openHexEscape (lookahead stop rest)
  else finish digits.length

/-- The character that a letter after a backslash stands for in a string. -/
def letterEscape? : Char → Option Char
  | 'a' => some (Char.ofNat 7)
  | 'b' => some (Char.ofNat 8)
  | 't' => some (Char.ofNat 9)
  | 'n' => some (Char.ofNat 10)
  | 'v' => some (Char.ofNat 11)
  | 'f' => some (Char.ofNat 12)
  | 'r' => some (Char.ofNat 13)
  | '\\' => some '\\'
  | c => if c = Text.doubleQuote then some c else none

/-- `c` is skipped after a backslash and a line end. -/
def isIndent (c : Char) : Bool := c = ' ' || c = '\t'

/-- Read what follows a backslash in a string: the characters it stands for, and the number of
glyphs. -/
def stringEscape (stop : Position) : List Glyph → Except ReadError (List Char × Nat)
  | [] => .error .incomplete
  | g :: gs =>
    match letterEscape? g.char with
    | some c => .ok ([c], 1)
    | none =>
      if g.char = '\n' then .ok ([], 1 + (gs.takeWhile fun g => isIndent g.char).length)
      else if g.char = 'x' ∨ g.char = 'u' ∨ g.char = 'U' then
        match hexEscapeRest stop g.char gs with
        | .ok (c, count) => .ok ([c], 1 + count)
        | .error e => .error e
      else malformedAt (.unknownEscape g.char) (lookahead stop gs)

/-- Read what follows a backslash in a symbol between bars. -/
def symbolEscape (stop : Position) : List Glyph → Except ReadError (List Char × Nat)
  | [] => .error .incomplete
  | g :: gs =>
    if g.char = '|' ∨ g.char = '\\' then .ok ([g.char], 1)
    else if g.char = 'x' then
      match hexEscapeRest stop g.char gs with
      | .ok (c, count) => .ok ([c], 1 + count)
      | .error e => .error e
    else malformedAt (.unknownEscape g.char) (lookahead stop gs)

/-- Read a text up to the closing character `quote`, with escapes read by `escape`: its characters,
and the number of glyphs. -/
def quotedRest (quote : Char) (escape : List Glyph → Except ReadError (List Char × Nat)) :
    List Glyph → Except ReadError (List Char × Nat)
  | [] => .error .incomplete
  | g :: gs =>
    if g.char = quote then .ok ([], 1)
    else if g.char = '\\' then
      match escape gs with
      | .error e => .error e
      | .ok (cs, count) =>
        match quotedRest quote escape (gs.drop count) with
        | .ok (more, rest) => .ok (cs ++ more, 1 + count + rest)
        | .error e => .error e
    else
      match quotedRest quote escape gs with
      | .ok (more, rest) => .ok (g.char :: more, 1 + rest)
      | .error e => .error e
termination_by gs => gs.length
decreasing_by
  all_goals
    simp only [List.length_drop, List.length_cons]
    omega

/-- Read a string literal after its opening quote. -/
def stringRest (stop : Position) : List Glyph → Except ReadError (List Char × Nat) :=
  quotedRest Text.doubleQuote (stringEscape stop)

/-- Read a symbol between bars after its opening bar. -/
def symbolRest (stop : Position) : List Glyph → Except ReadError (List Char × Nat) :=
  quotedRest '|' (symbolEscape stop)

/-! ### Words -/

/-- The character that a name after `#\` stands for: the name itself if it is one character, a named
character, or `x` and its code point. -/
def namedChar? : List Char → Option Char
  | [c] => some c
  | name =>
    match characterNamed? (String.ofList name), name with
    | some c, _ => some c
    | none, 'x' :: digits => Text.hexChar? digits
    | none, _ => none

/-- What the word `#` means before the glyphs `gs`, and the number of glyphs that belong to it. -/
def hashToken? (gs : List Glyph) : Option (TokenKind × Nat) :=
  match peek gs with
  | some '(' => some (.vectorOpen, 1)
  | some '\x27' => some (.quotation "syntax", 1)
  | some '\x60' => some (.quotation "quasisyntax", 1)
  | some ',' =>
    if peek gs.tail = some '@' then some (.quotation "unsyntax-splicing", 2)
    else some (.quotation "unsyntax", 1)
  | some ';' => some (.datumComment, 1)
  | _ => none

/-- What a word means that neither opens nor marks anything. -/
def atomOfWord (word : List Char) (place : Option Position) : Except ReadError TokenKind :=
  match word with
  | '#' :: '\\' :: name =>
    match namedChar? name with
    | some c => .ok (.atom (.char c))
    | none => malformedAt (.unknownCharacter (String.ofList name)) place
  | _ =>
    match Number.parseChars word with
    | some n => .ok (.atom (.number n))
    | none =>
      if word.head? = some '#' then malformedAt (.badWord (String.ofList word)) place
      else .ok (.atom (.symbol (String.ofList word)))

/-- What a word means before the glyphs `gs`, and the number of glyphs that belong to it. -/
def classify (word : List Char) (place : Option Position) (gs : List Glyph) :
    Except ReadError (TokenKind × Nat) :=
  let atom : Except ReadError (TokenKind × Nat) :=
    match atomOfWord word place with
    | .ok kind => .ok (kind, 0)
    | .error e => .error e
  if word = ['.'] then .ok (.dot, 0)
  else if word = "#t".toList ∨ word = "#true".toList then .ok (.atom (.boolean true), 0)
  else if word = "#f".toList ∨ word = "#false".toList then .ok (.atom (.boolean false), 0)
  else if word = ['#'] then
    match hashToken? gs with
    | some found => .ok found
    | none => atom
  else if word = "#vu8".toList ∧ peek gs = some '(' then .ok (.bytesOpen, 1)
  else if word = ['#', '\\'] then
    match gs with
    | [] => .error .incompleteChar
    | g :: _ => .ok (.atom (.char g.char), 1)
  else atom

/-! ### All tokens -/

/-- White space within a line. -/
def isSpace (c : Char) : Bool :=
  c = ' ' || c = '\t' || c = '\r' || c.toNat = 12

/-- What starts with a character `c` that is no part of a word, before the glyphs `gs`: the token,
unless it is a comment or a line end, and the number of glyphs that belong to it. -/
def delimiter (stop : Position) (place : Option Position) (c : Char) (gs : List Glyph) :
    Except ReadError (Option TokenKind × Nat) :=
  match c with
  | '\n' => .ok (none, 0)
  | ';' => .ok (none, (gs.takeWhile fun g => g.char ≠ '\n').length + 1)
  | '(' => .ok (some .listOpen, 0)
  | ')' => .ok (some .close, 0)
  | '\x27' => .ok (some (.quotation "quote"), 0)
  | '\x60' => .ok (some (.quotation "quasiquote"), 0)
  | ',' =>
    if peek gs = some '@' then .ok (some (.quotation "unquote-splicing"), 1)
    else .ok (some (.quotation "unquote"), 0)
  | '\x22' =>
    match stringRest stop gs with
    | .ok (cs, count) => .ok (some (.atom (.string (String.ofList cs))), count)
    | .error e => .error e
  | '|' =>
    match symbolRest stop gs with
    | .ok (cs, count) => .ok (some (.atom (.symbol (String.ofList cs))), count)
    | .error e => .error e
  | _ => malformedAt (.illegalChar c) place

/-- What starts with the character `c`, followed by the rest `more` of a word, before the glyphs
`gs`. -/
def meaning (stop : Position) (place : Option Position) (c : Char) (more : List Glyph)
    (gs : List Glyph) : Except ReadError (Option TokenKind × Nat) :=
  if isNameChar c then
    match classify (c :: more.map (·.char)) place gs with
    | .ok (kind, count) => .ok (some kind, count)
    | .error e => .error e
  else delimiter stop place c gs

/-- The glyphs of `gs` that belong to the word that starts with the glyph `g`. -/
def wordRest (g : Glyph) (gs : List Glyph) : List Glyph :=
  if isNameChar g.char then gs.takeWhile (fun g => isNameChar g.char) else []

/-- Read what starts with the glyph `g` before the glyphs `gs`: the token, unless it is a comment or
a line end, and the glyphs after it.  A fault within a word comes before all other complaints, and a
fault after it comes last.  A token that is more than a word or a character has no place. -/
def lexeme (stop : Position) (g : Glyph) (gs : List Glyph) :
    Except ReadError (Option Token × List Glyph) :=
  let place := some g.position
  let more := wordRest g gs
  match faultWithin (g :: gs) (more.length + 1) with
  | some f => malformedAt (.fault f) place
  | none =>
    let after := gs.drop more.length
    match meaning stop place g.char more after with
    | .error e => .error e
    | .ok (kind, count) =>
      match faultWithin after count with
      | some f => malformedAt (.fault f) none
      | none => .ok (kind.map fun k => ⟨k, if count = 0 then place else none⟩, after.drop count)

/-- The tokens of `gs`, given that the first glyph has been read without a fault.  Each round passes
at least one of the `fuel` glyphs that are left. -/
def tokensFrom (stop : Position) : (fuel : Nat) → List Glyph → Except ReadError (List Token)
  | 0, _ => .ok []
  | fuel + 1, gs =>
    let blank := (gs.takeWhile fun g => isSpace g.char).length
    match faultWithin gs blank with
    | some f => malformedAt (.fault f) none
    | none =>
      match gs.drop blank with
      | [] => .ok []
      | g :: rest =>
        match lexeme stop g rest with
        | .error e => .error e
        | .ok (token, rest) =>
          match tokensFrom stop fuel rest with
          | .ok more => .ok (token.toList ++ more)
          | .error e => .error e

/-- All tokens of a source text. -/
def tokens (source : Source) : Except ReadError (List Token) :=
  match source.glyphs.head?.bind (·.fault) with
  | some f => malformedAt (.fault f) none
  | none => tokensFrom source.stop source.glyphs.length source.glyphs

end Scheme.Reader
