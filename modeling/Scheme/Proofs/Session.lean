import Mathlib
import Scheme.Proofs.Continuation
import Scheme.Shell.Run

/-!
# A session and the text of its lines

A session takes a text line by line and evaluates an input as soon as its lines hold complete data.
If the whole text reads well, the inputs together hold the data of the text, and if no evaluation
fails, the session ends in the state that evaluating the whole text leads to.

* `Repl.inputs`: the inputs that a session evaluates;
* `input_cases`: an input either waits for the next line or splits the data of the text;
* `feed_inputs`, `feed_shows`: a whole session, line by line;
* `interact_agrees`: the main result.
-/

namespace Scheme.Shell

open Reader (Script Source Token)

/-! ### Evaluating data -/

namespace Console

/-- Evaluate data until one fails, and show their values if `printing`. -/
def evalData (fuel : Nat) (printing : Bool) : List Sexp → Console → Option String × Console
  | [], c => (none, c)
  | d :: ds, c =>
    match c.eval fuel d with
    | (.value v, c) => evalData fuel printing ds (if printing then c.printValue v else c)
    | (outcome, c) => (complaint? outcome, c)

theorem evalTokens_eq {fuel : Nat} {printing : Bool} {count : Nat} {ts : List Token}
    {ds : List Sexp} (h : Reader.readAllFrom count ts = .ok ds) (c : Console) :
    c.evalTokens fuel printing count ts = evalData fuel printing ds c := by
  induction count generalizing ts ds c with
  | zero =>
    cases h
    rfl
  | succ count ih =>
    rw [Reader.readAllFrom] at h
    rw [evalTokens]
    cases hread : Reader.read ts with
    | mk result rest =>
      rw [hread] at h
      cases result with
      | error e =>
        -- only an end of input ends the data without a complaint
        cases e with
        | endOfInput =>
          cases h
          rfl
        | _ => cases h
      | ok d =>
        simp only at h
        split at h
        · rename_i more hmore
          cases h
          simp only [evalData]
          cases c.eval fuel d with
          | mk outcome c =>
            cases outcome with
            | value v => exact ih hmore _
            | _ => rfl
        · cases h

/-- Evaluating a text evaluates its data. -/
theorem evalAll_eq {source : Source} {ds : List Sexp} (h : Reader.readAll source = .ok ds)
    (fuel : Nat) (printing : Bool) (c : Console) :
    c.evalAll fuel printing source = evalData fuel printing ds c := by
  unfold Reader.readAll at h
  unfold evalAll
  cases hts : Reader.tokens source with
  | error e =>
    rw [hts] at h
    cases h
  | ok ts =>
    rw [hts] at h
    exact evalTokens_eq h c

theorem evalData_append {fuel : Nat} {printing : Bool} {ds₁ ds₂ : List Sexp} {c c' : Console}
    (h : evalData fuel printing (ds₁ ++ ds₂) c = (none, c')) :
    ∃ c₁, evalData fuel printing ds₁ c = (none, c₁) ∧
      evalData fuel printing ds₂ c₁ = (none, c') := by
  induction ds₁ generalizing c with
  | nil => exact ⟨c, rfl, h⟩
  | cons d ds₁ ih =>
    rw [List.cons_append, evalData] at h
    rw [evalData]
    cases heval : c.eval fuel d with
    | mk outcome c₀ =>
      rw [heval] at h
      cases outcome with
      | value v => exact ih h
      | _ => cases h

/-- The console that has shown `w` before all else. -/
def after (w : String) (c : Console) : Console := { c with out := w ++ c.out }

theorem eval_after (fuel : Nat) (w : String) (c : Console) (d : Sexp) :
    (c.after w).eval fuel d = ((c.eval fuel d).1, (c.eval fuel d).2.after w) := by
  simp [eval, after, String.append_assoc]

theorem printValue_after (w : String) (c : Console) (v : Value) :
    (c.after w).printValue v = (c.printValue v).after w := by
  unfold printValue
  split_ifs with hvoid
  · rfl
  · simp [print, after, String.append_assoc]

/-- What a console has shown before does not matter, except that it stays. -/
theorem evalData_after (fuel : Nat) (printing : Bool) (ds : List Sexp) (w : String) (c : Console) :
    evalData fuel printing ds (c.after w) =
      ((evalData fuel printing ds c).1, (evalData fuel printing ds c).2.after w) := by
  induction ds generalizing c with
  | nil => rfl
  | cons d ds ih =>
    rw [evalData, evalData, eval_after]
    cases c.eval fuel d with
    | mk outcome c =>
      cases outcome with
      | value v =>
        cases printing with
        | true =>
          show evalData fuel true ds ((c.after w).printValue v) = _
          rw [printValue_after]
          exact ih _
        | false => exact ih c
      | _ => rfl

/-- Two consoles that have shown different texts show the same from then on. -/
theorem evalData_shows {fuel : Nat} {printing : Bool} {ds : List Sexp} {c c₁ : Console}
    (h : evalData fuel printing ds c = (none, c₁)) {b : Console}
    (hi : b.interpreter = c.interpreter) (he : b.err = c.err) :
    ∃ text, c₁.out = c.out ++ text ∧
      evalData fuel printing ds b = (none, ⟨c₁.interpreter, b.out ++ text, c₁.err⟩) := by
  have hc : c = (⟨c.interpreter, "", c.err⟩ : Console).after c.out := by simp [after]
  have hb : b = (⟨c.interpreter, "", c.err⟩ : Console).after b.out := by simp [after, ← hi, ← he]
  rw [hc, evalData_after] at h
  obtain ⟨hnone, hc₁⟩ := Prod.mk.inj h
  subst hc₁
  refine ⟨_, rfl, ?_⟩
  calc evalData fuel printing ds b
      = evalData fuel printing ds ((⟨c.interpreter, "", c.err⟩ : Console).after b.out) :=
        congrArg _ hb
    _ = _ := by
        rw [evalData_after, hnone]
        rfl

end Console

/-! ### Inputs -/

/-- Lines with line ends between them. -/
def joinLines (lines : List Script) : Script := List.intercalate [Script.mark '\n'] lines

theorem joinLines_cons_cons (p q : Script) (lines : List Script) :
    joinLines (p :: q :: lines) = p ++ Script.mark '\n' :: joinLines (q :: lines) := by
  simp [joinLines, List.intercalate, List.intersperse]

/-- A line end in the middle of the first line. -/
theorem joinLines_join (p q : Script) (lines : List Script) :
    joinLines ((p ++ Script.mark '\n' :: q) :: lines) = joinLines (p :: q :: lines) := by
  cases lines with
  | nil => simp [joinLines, List.intercalate, List.intersperse]
  | cons line lines => simp [joinLines_cons_cons]

namespace Repl

/-- The inputs that are evaluated when lines are taken. -/
def inputs (r : Repl) : List Script → List Script
  | [] => []
  | line :: lines =>
    let input := r.inputWith line
    if isIncomplete input then inputs { r with pending := input } lines
    else input :: inputs { r with pending := [] } lines

/-- The inputs only depend on the lines that wait. -/
theorem inputs_congr {r r' : Repl} (h : r'.pending = r.pending) (lines : List Script) :
    r'.inputs lines = r.inputs lines := by
  induction lines generalizing r r' with
  | nil => rfl
  | cons line lines ih =>
    have hinput : r'.inputWith line = r.inputWith line := by rw [inputWith, inputWith, h]
    rw [inputs, inputs, hinput]
    split_ifs
    · exact ih rfl
    · exact congrArg _ (ih rfl)

theorem inputs_wait {r : Repl} {line : Script} (h : isIncomplete (r.inputWith line) = true)
    (lines : List Script) :
    r.inputs (line :: lines) = inputs { r with pending := r.inputWith line } lines := by
  rw [inputs, if_pos h]

theorem inputs_full {r : Repl} {line : Script} (h : isIncomplete (r.inputWith line) = false)
    (lines : List Script) :
    r.inputs (line :: lines) = r.inputWith line :: inputs { r with pending := [] } lines := by
  rw [inputs, if_neg (by rw [h]; nofun)]

/-- The text that is still to be evaluated when only `lines` are left. -/
def remaining (r : Repl) (lines : List Script) : Script :=
  joinLines (if r.pending.isEmpty then lines else r.pending :: lines)

theorem remaining_cons (r : Repl) (line : Script) (lines : List Script) :
    r.remaining (line :: lines) = joinLines (r.inputWith line :: lines) := by
  unfold remaining inputWith
  split_ifs with hpending
  · rfl
  · rw [joinLines_join]

/-- The lines that wait do not hold complete data. -/
def Waits (r : Repl) : Prop := r.pending ≠ [] → isIncomplete r.pending = true

theorem isIncomplete_iff (input : Script) :
    isIncomplete input = true ↔ Reader.dataOf input.content = .error true := by
  rw [← Reader.readAll_ofScript, isIncomplete]
  cases Reader.readAll (Source.ofScript input) with
  | ok ds => simp [Except.mapError]
  | error e => simp [Except.mapError]

/-- **An input within a good text** either waits for the next line or holds the first data of the
text. -/
theorem input_cases {input : Script} {lines : List Script} {ds : List Sexp}
    (h : Reader.dataOf (joinLines (input :: lines)).content = .ok ds) :
    (isIncomplete input = true ∧ input ≠ [] ∧ lines ≠ []) ∨
    (isIncomplete input = false ∧ ∃ ds₁ ds₂, Reader.readAll (Source.ofScript input) = .ok ds₁ ∧
      Reader.dataOf (joinLines lines).content = .ok ds₂ ∧ ds = ds₁ ++ ds₂) := by
  have hincomplete := isIncomplete_iff input
  -- the error of a text that is read is none, so the data are the same
  have hread {data : List Sexp} (hdata : Reader.dataOf input.content = .ok data) :
      isIncomplete input = false ∧ Reader.readAll (Source.ofScript input) = .ok data := by
    rw [← Reader.readAll_ofScript] at hdata hincomplete
    cases hall : Reader.readAll (Source.ofScript input) with
    | ok data' =>
      rw [hall] at hdata hincomplete
      exact ⟨by simpa [Except.mapError] using hincomplete, congrArg _ (Except.ok.inj hdata)⟩
    | error e =>
      rw [hall] at hdata
      cases hdata
  -- the text after the input decides: it may mend an unfinished input, but not a malformed one
  cases lines with
  | nil =>
    have hjoin : joinLines [input] = input := by
        simp [joinLines, List.intercalate, List.intersperse]
    rw [hjoin] at h
    exact Or.inr ⟨(hread h).1, ds, [], (hread h).2, rfl, by simp⟩
  | cons line lines =>
    rw [joinLines_cons_cons, Reader.Script.content_append] at h
    cases hdata : Reader.dataOf input.content with
    | ok ds₁ =>
      rw [Reader.dataOf_append hdata] at h
      cases hmore : Reader.dataOf (joinLines (line :: lines)) with
      | error e =>
        rw [hmore] at h
        cases h
      | ok ds₂ =>
        rw [hmore] at h
        refine Or.inr ⟨(hread hdata).1, ds₁, ds₂, (hread hdata).2, ?_, (Except.ok.inj h).symm⟩
        rw [Reader.content_of_dataOf hmore, hmore]
    | error e =>
      cases e with
      | true =>
        refine Or.inl ⟨hincomplete.2 hdata, ?_, List.cons_ne_nil _ _⟩
        rintro rfl
        cases hdata
      | false => exact absurd hdata (Reader.dataOf_ne_malformed h)

/-- No lines wait at the end of a good text. -/
theorem pending_eq_nil {r : Repl} {ds : List Sexp} (hwaits : r.Waits)
    (h : Reader.dataOf (r.remaining []).content = .ok ds) : r.pending = [] ∧ ds = [] := by
  by_cases hpending : r.pending = []
  · have hnil : r.remaining [] = [] := by simp [remaining, hpending, joinLines]
    rw [hnil] at h
    exact ⟨hpending, (Except.ok.inj h).symm⟩
  · have hrest : r.remaining [] = r.pending := by
      simp [remaining, hpending, joinLines, List.intercalate]
    rw [hrest, (isIncomplete_iff r.pending).1 (hwaits hpending)] at h
    cases h

theorem remaining_pending (r : Repl) {input : Script} (h : input ≠ []) (lines : List Script) :
    remaining { r with pending := input } lines = joinLines (input :: lines) := by
  simp [remaining, h]

/-- **The inputs of a session hold the data of the whole text**, in order. -/
theorem inputs_read {r : Repl} {lines : List Script} {ds : List Sexp} (hwaits : r.Waits)
    (h : Reader.dataOf (r.remaining lines).content = .ok ds) :
    ∃ dss : List (List Sexp), (r.inputs lines).map (fun s => Reader.readAll (Source.ofScript s)) =
      dss.map Except.ok ∧ dss.flatten = ds := by
  induction lines generalizing r ds with
  | nil =>
    obtain ⟨-, rfl⟩ := pending_eq_nil hwaits h
    exact ⟨[], rfl, rfl⟩
  | cons line lines ih =>
    rw [remaining_cons] at h
    rcases input_cases h with ⟨hwait, hne, -⟩ | ⟨hfull, ds₁, ds₂, hread, hmore, rfl⟩
    · rw [inputs_wait hwait]
      rw [← remaining_pending r hne] at h
      exact ih (fun _ => hwait) h
    · obtain ⟨dss, hinputs, rfl⟩ :=
        @ih { r with pending := [] } ds₂ (fun hne => absurd rfl hne) hmore
      refine ⟨ds₁ :: dss, ?_, rfl⟩
      rw [inputs_full hfull, List.map_cons, hread, hinputs]
      rfl

/-! ### What a session evaluates -/

theorem feed_wait {r : Repl} {line : Script} (h : isIncomplete (r.inputWith line) = true)
    (fuel : Nat) :
    r.feed fuel line = showPrompt { r with pending := r.inputWith line } := by
  rw [feed, if_pos h]

theorem feed_full {r : Repl} {line : Script} (h : isIncomplete (r.inputWith line) = false)
    (fuel : Nat) :
    r.feed fuel line = (r.evaluate fuel (r.inputWith line)).showPrompt := by
  rw [feed, if_neg (by rw [h]; nofun)]

/-- An evaluated input waits no more and is part of the history. -/
theorem evaluate_eq (fuel : Nat) (r : Repl) (input : Script) :
    r.evaluate fuel input = ⟨(r.evaluate fuel input).console, [],
      if isBlankText input then r.history else r.history.add input⟩ := by
  obtain ⟨console, pending, history⟩ := r
  unfold evaluate
  split_ifs
  · rfl
  · simp only
    cases console.evalAll fuel true (Source.ofScript input) with
    | mk complaint console => cases complaint <;> rfl

/-- The history of a session holds its inputs, whatever their evaluation leads to. -/
theorem history_feed (fuel : Nat) (r : Repl) (lines : List Script) :
    (lines.foldl (feed fuel) r).history =
      ((r.inputs lines).filter fun s => !isBlankText s).foldl History.add r.history := by
  induction lines generalizing r with
  | nil => rfl
  | cons line lines ih =>
    rw [List.foldl_cons, ih]
    cases hinput : isIncomplete (r.inputWith line) with
    | true =>
      rw [feed_wait hinput, inputs_wait hinput]
      rw [@inputs_congr { r with pending := r.inputWith line } (showPrompt _) rfl]
      rfl
    | false =>
      rw [feed_full hinput, inputs_full hinput, List.filter_cons, evaluate_eq]
      rw [@inputs_congr { r with pending := [] } (showPrompt _) rfl]
      cases isBlankText (r.inputWith line) <;> rfl

/-! ### What a session shows -/

/-- An input of white space only holds no data. -/
theorem readAll_blank {input : Script} {ds : List Sexp} (hblank : isBlankText input = true)
    (h : Reader.readAll (Source.ofScript input) = .ok ds) : ds = [] := by
  have hall : ∀ p ∈ input.content, Text.isBlank p.1 = true := fun p hp =>
    List.all_eq_true.1 hblank p (Reader.Script.mem_of_mem_content hp)
  have hdata : Reader.dataOf input.content = .ok ds := by
    rw [← Reader.readAll_ofScript, h]
    rfl
  unfold Reader.dataOf at hdata
  rcases Reader.kindsOf_blank hall with hkinds | hkinds
  · rw [hkinds] at hdata
    exact (Except.ok.inj hdata).symm
  · rw [hkinds] at hdata
    cases hdata

theorem evaluate_console {fuel : Nat} {r : Repl} {input : Script} {ds : List Sexp} {c : Console}
    (hread : Reader.readAll (Source.ofScript input) = .ok ds)
    (heval : Console.evalData fuel true ds r.console = (none, c)) :
    (r.evaluate fuel input).console = c := by
  unfold evaluate
  split_ifs with hblank
  · rw [readAll_blank hblank hread] at heval
    cases heval
    rfl
  · simp only [Console.evalAll_eq hread, heval]

theorem foldl_append_eq_join (s : String) (ss : List String) :
    ss.foldl (fun r s => r ++ s) s = s ++ String.join ss := by
  induction ss generalizing s with
  | nil => simp [String.join]
  | cons t ss ih =>
    have hjoin : String.join (t :: ss) = t ++ String.join ss := by
      rw [← ih t, String.join, List.foldl_cons, String.empty_append]
    rw [List.foldl_cons, ih, hjoin, String.append_assoc]

theorem join_cons (s : String) (ss : List String) :
    String.join (s :: ss) = s ++ String.join ss := by
  rw [String.join, List.foldl_cons, String.empty_append, foldl_append_eq_join]

/-- **A session shows what evaluating its text shows**, with a prompt after every line, and ends in
the same state. -/
theorem feed_shows {fuel : Nat} {r : Repl} {lines : List Script} {ds : List Sexp} {c c' : Console}
    (hwaits : r.Waits) (hdata : Reader.dataOf (r.remaining lines).content = .ok ds)
    (hi : r.console.interpreter = c.interpreter) (he : r.console.err = c.err)
    (heval : Console.evalData fuel true ds c = (none, c')) :
    ∃ shown : List (String × String), shown.length = lines.length ∧
      (∀ p ∈ shown, p.2 = "> " ∨ p.2 = "| ") ∧
      c'.out = c.out ++ String.join (shown.map Prod.fst) ∧
      (lines.foldl (feed fuel) r).pending = [] ∧
      (lines.foldl (feed fuel) r).console =
        ⟨c'.interpreter, r.console.out ++ String.join (shown.map fun p => p.1 ++ p.2), c'.err⟩ := by
  have hprompt (r : Repl) : r.prompt = "> " ∨ r.prompt = "| " := by
    unfold prompt
    split_ifs
    · exact Or.inl rfl
    · exact Or.inr rfl
  -- along the lines; the consoles agree but for the prompts, and the data are those still to come
  induction lines generalizing r ds c with
  | nil =>
    obtain ⟨hpending, rfl⟩ := pending_eq_nil hwaits hdata
    cases heval
    refine ⟨[], rfl, by simp, by simp [String.join], hpending, ?_⟩
    obtain ⟨⟨interpreter, out, err⟩, pending, history⟩ := r
    simp_all [String.join]
  | cons line lines ih =>
    rw [remaining_cons] at hdata
    rw [List.foldl_cons]
    rcases input_cases hdata with ⟨hwait, hne, -⟩ | ⟨hfull, ds₁, ds₂, hread, hmore, rfl⟩
    · rw [← remaining_pending r hne] at hdata
      obtain ⟨shown, hlen, hprompts, hout, hpending, hconsole⟩ :=
        @ih (showPrompt { r with pending := r.inputWith line }) ds c
          (fun _ => hwait) hdata hi he heval
      rw [feed_wait hwait]
      refine ⟨("", prompt { r with pending := r.inputWith line }) :: shown, by simp [hlen], ?_, ?_,
        hpending, ?_⟩
      · rintro p (_ | ⟨_, hp⟩)
        · exact hprompt _
        · exact hprompts p hp
      · simpa [join_cons] using hout
      · rw [hconsole]
        simp only [List.map_cons, join_cons, showPrompt, Console.print, String.empty_append,
          String.append_assoc]
    · -- the data of the input are evaluated, and the rest of the text after them
      obtain ⟨c₁, heval₁, heval₂⟩ := Console.evalData_append heval
      obtain ⟨text, htext, hshown⟩ := Console.evalData_shows heval₁ hi he
      rw [feed_full hfull, evaluate_eq, evaluate_console hread hshown]
      obtain ⟨shown, hlen, hprompts, hout, hpending, hconsole⟩ :=
        @ih (showPrompt ⟨⟨c₁.interpreter, r.console.out ++ text, c₁.err⟩, [], _⟩) ds₂ c₁
          (fun hne => absurd rfl hne) hmore rfl rfl heval₂
      refine ⟨(text, "> ") :: shown, by simp [hlen], ?_, ?_, hpending, ?_⟩
      · rintro p (_ | ⟨_, hp⟩)
        · exact Or.inl rfl
        · exact hprompts p hp
      · rw [hout, htext, List.map_cons, join_cons, String.append_assoc]
      · rw [hconsole]
        simp only [List.map_cons, join_cons, showPrompt, Console.print, prompt, List.isEmpty_nil,
          if_true,
          String.append_assoc]

end Repl

/-! ### Whole sessions -/

theorem continuation_lineFeed (high n : Nat) (p q : List UInt8) :
    Script.continuation high n (p ++ Line.lineFeed :: q) = Script.continuation high n p := by
  induction n generalizing high p with
  | zero => simp [Script.continuation]
  | succ n ih =>
    cases p with
    | nil => simp [Script.continuation, Line.lineFeed]
    | cons b p =>
      rw [List.cons_append, Script.continuation, Script.continuation]
      split_ifs
      · exact ih _ p
      · rfl

theorem decodeChar_lineFeed (b : UInt8) (p q : List UInt8) :
    Script.decodeChar b (p ++ Line.lineFeed :: q) = Script.decodeChar b p := by
  unfold Script.decodeChar
  simp only [continuation_lineFeed]

theorem length_of_continuation {high n m : Nat} {p : List UInt8}
    (h : Script.continuation high n p = some m) : n ≤ p.length := by
  induction n generalizing high p with
  | zero => exact Nat.zero_le _
  | succ n ih =>
    cases p with
    | nil => cases h
    | cons b p =>
      rw [Script.continuation] at h
      split_ifs at h
      exact Nat.succ_le_succ (ih h)

theorem length_of_decodeChar {b : UInt8} {p : List UInt8} {c : Char} {more : Nat}
    (h : Script.decodeChar b p = some (c, more)) : more ≤ p.length := by
  unfold Script.decodeChar at h
  simp only at h
  split_ifs at h
  all_goals
    split at h
    · rename_i m hcontinuation
      split_ifs at h
      cases h
      exact length_of_continuation hcontinuation
    · cases h

/-- A line feed is part of no other character. -/
theorem ofBytes_lineFeed (p q : List UInt8) :
    Script.ofBytes (p ++ Line.lineFeed :: q) =
      Script.ofBytes p ++ Script.mark '\n' :: Script.ofBytes q := by
  induction hn : p.length using Nat.strongRecOn generalizing p with
  | _ n ih =>
    cases p with
    | nil =>
      have hnil : Script.ofBytes [] = [] := by rw [Script.ofBytes]
      have hchar : Script.decodeChar Line.lineFeed q = some ('\n', 0) := rfl
      rw [hnil, List.nil_append, List.nil_append, Script.ofBytes, hchar]
      rfl
    | cons b p =>
      rw [List.length_cons] at hn
      rw [List.cons_append, Script.ofBytes, Script.ofBytes, decodeChar_lineFeed]
      cases hchar : Script.decodeChar b p with
      | none => exact congrArg _ (ih p.length (by omega) p rfl)
      | some found =>
        obtain ⟨c, more⟩ := found
        have hle := length_of_decodeChar hchar
        simp only
        rw [List.drop_append_of_le_length hle,
          ih (p.drop more).length (by rw [List.length_drop]; omega) _ rfl]
        rfl

theorem ofBytes_intercalate (lines : List (List UInt8)) :
    Script.ofBytes (List.intercalate [Line.lineFeed] lines) =
      joinLines (lines.map Script.ofBytes) := by
  induction lines with
  | nil => simp [joinLines, List.intercalate, Script.ofBytes]
  | cons line lines ih =>
    cases lines with
    | nil => simp [joinLines, List.intercalate]
    | cons next lines =>
      rw [List.map_cons, List.map_cons, joinLines_cons_cons, ← List.map_cons, ← ih,
        ← ofBytes_lineFeed]
      simp [List.intercalate, List.intersperse]

/-- **A session agrees with its text.**  If the text of the lines reads well, the inputs that the
session evaluates hold the data of the text, in order.  If moreover no evaluation fails, the session
ends with the interpreter that evaluating the text leads to, and it shows what that shows, with
prompts between. -/
theorem interact_agrees {lines : List (List UInt8)} {ds : List Sexp}
    (h : Reader.readAll (Source.ofBytes (List.intercalate [Line.lineFeed] lines)) = .ok ds)
    (fuel : Nat) (c : Console) (history : History) :
    (∃ dss : List (List Sexp), ((Repl.begin c history).inputs (lines.map Script.ofBytes)).map
      (fun input => Reader.readAll (Source.ofScript input)) = dss.map Except.ok ∧
      dss.flatten = ds) ∧
    ∀ c',
      c.evalAll fuel true (Source.ofBytes (List.intercalate [Line.lineFeed] lines)) = (none, c') →
      ∃ shown : List (String × String), shown.length = lines.length ∧
        (∀ p ∈ shown, p.2 = "> " ∨ p.2 = "| ") ∧
        c'.out = c.out ++ String.join (shown.map Prod.fst) ∧
        interact fuel c history (lines.map Script.ofBytes) =
          ⟨⟨c'.interpreter, c.out ++ "> " ++ String.join (shown.map fun p => p.1 ++ p.2) ++
            "Goodbye\n",
            c'.err⟩, [],
            (((Repl.begin c history).inputs (lines.map Script.ofBytes)).filter
              fun input => !Repl.isBlankText input).foldl History.add history⟩ := by
  have hwaits : (Repl.begin c history).Waits := fun hne => absurd rfl hne
  have hdata : Reader.dataOf ((Repl.begin c history).remaining (lines.map Script.ofBytes)).content =
      .ok ds := by
    have hjoin : (Repl.begin c history).remaining (lines.map Script.ofBytes) =
        joinLines (lines.map Script.ofBytes) := rfl
    rw [Source.ofBytes, ofBytes_intercalate] at h
    rw [hjoin, ← Reader.readAll_ofScript, h]
    rfl
  refine ⟨Repl.inputs_read hwaits hdata, fun c' heval => ?_⟩
  rw [Console.evalAll_eq h] at heval
  obtain ⟨shown, hlen, hprompts, hout, hpending, hconsole⟩ :=
    Repl.feed_shows (c := c) hwaits hdata rfl rfl heval
  have hhistory := Repl.history_feed fuel (Repl.begin c history) (lines.map Script.ofBytes)
  refine ⟨shown, by rw [hlen, List.length_map], hprompts, hout, ?_⟩
  rw [interact]
  generalize (lines.map Script.ofBytes).foldl (Repl.feed fuel) (Repl.begin c history) = r
    at hpending hconsole hhistory ⊢
  obtain ⟨console, pending, inputs⟩ := r
  cases hpending
  cases hconsole
  cases hhistory
  rfl

/-- The lines `#;(` and `) #t`: the first waits for the second, and both together hold one datum. -/
theorem interact_agrees_comment :
    let lines : List (List UInt8) := [[35, 59, 40], [41, 32, 35, 116]]
    let console : Console := ⟨Interpreter.start 0 false, "", ""⟩
    ∃ c' shown, console.evalAll 20 true (Source.ofBytes (List.intercalate [Line.lineFeed] lines)) =
        (none, c') ∧ c'.out = "#t\n" ∧ List.length shown = 2 ∧
      c'.out = "" ++ String.join (shown.map Prod.fst) ∧
      (interact 20 console [] (lines.map Script.ofBytes)).console.out =
        "" ++ "> " ++ String.join (shown.map fun p => p.1 ++ p.2) ++ "Goodbye\n" := by
  intro lines console
  have htext : Script.ofBytes (List.intercalate [Line.lineFeed] lines) =
      Script.ofString "#;(\n) #t" := by
    decide +kernel
  have hread : Reader.readAll (Source.ofBytes (List.intercalate [Line.lineFeed] lines)) =
      .ok [.boolean true] := by
    rw [Source.ofBytes, htext]
    rfl
  obtain ⟨c', heval, hc'⟩ : ∃ c', console.evalAll 20 true
      (Source.ofBytes (List.intercalate [Line.lineFeed] lines)) = (none, c') ∧ c'.out = "#t\n" := by
    rw [Console.evalAll_eq hread]
    exact ⟨_, rfl, rfl⟩
  obtain ⟨shown, hlen, -, hout, hrun⟩ := (interact_agrees hread 20 console []).2 c' heval
  exact ⟨c', shown, heval, hc', hlen, hout, by rw [hrun]⟩

end Scheme.Shell
