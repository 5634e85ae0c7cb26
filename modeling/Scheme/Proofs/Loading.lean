import Mathlib
import Scheme.Proofs.Joining

/-!
# Several files and one

Files are loaded one after the other into one interpreter, and the first datum that fails ends the
run.  If all the texts read well, this is the same as loading one file with the texts joined by line
ends: none of them leaves anything open that the next one could complete.

* `Reader.readAll_intercalate`: the data of joined texts;
* `Console.evalData_append_eq`: evaluation of data goes on where it has not failed;
* `Console.Evaluated`: the data that are evaluated, the last of which may fail;
* `loadAll_eq`: several files;
* `run_joined`: the main result.
-/

namespace Scheme

open Reader (Script Source byteOrderMark)
open Shell (Line)

/-! ### Joined texts -/

namespace Reader

theorem dataOf_joinLines {scripts : List Script} {dss : List (List Sexp)} (hne : scripts ≠ [])
    (h : List.Forall₂ (fun s ds => dataOf s = .ok ds) scripts dss) :
    dataOf (Shell.joinLines scripts) = .ok dss.flatten := by
  induction h with
  | nil => exact absurd rfl hne
  | @cons s ds scripts dss hs hrest ih =>
    cases hrest with
    | nil =>
      rw [List.flatten_cons, List.flatten_nil, List.append_nil, ← hs]
      simp [Shell.joinLines, List.intercalate]
    | @cons s' ds' scripts dss hs' hrest =>
      rw [Shell.joinLines_cons_cons, dataOf_append hs, ih (List.cons_ne_nil _ _)]
      rfl

theorem dataOf_of_readAll {s : Script} {ds : List Sexp} (h : readAll (Source.ofScript s) = .ok ds) :
    dataOf s.content = .ok ds := by
  rw [← readAll_ofScript, h]
  rfl

theorem readAll_of_dataOf {s : Script} {ds : List Sexp} (h : dataOf s.content = .ok ds) :
    readAll (Source.ofScript s) = .ok ds := by
  rw [← readAll_ofScript] at h
  cases hread : readAll (Source.ofScript s) with
  | error e =>
    rw [hread] at h
    cases h
  | ok ds' =>
    rw [hread] at h
    exact congrArg Except.ok (Except.ok.inj h)

/-- Only the first of joined lines can start with a byte-order mark that is skipped. -/
theorem content_joinLines (s : Script) (scripts : List Script) :
    (Shell.joinLines (s :: scripts)).content = Shell.joinLines (s.content :: scripts) := by
  cases scripts with
  | nil => simp [Shell.joinLines, List.intercalate]
  | cons s' scripts =>
    rw [Shell.joinLines_cons_cons, Script.content_append, Shell.joinLines_cons_cons]

/-- **Joined texts** hold the data of all of them, in order. -/
theorem readAll_intercalate {texts : List (List UInt8)} {dss : List (List Sexp)} (hne : texts ≠ [])
    (h : List.Forall₂ (fun text ds => readAll (Source.ofBytes text) = .ok ds) texts dss)
    (hmarks : ∀ text ∈ texts.tail, ¬ String.utf8EncodeChar byteOrderMark <+: text) :
    readAll (Source.ofBytes (List.intercalate [Line.lineFeed] texts)) = .ok dss.flatten := by
  cases h with
  | nil => exact absurd rfl hne
  | @cons text ds texts dss htext hrest =>
    refine readAll_of_dataOf ?_
    rw [Shell.ofBytes_intercalate, List.map_cons, content_joinLines]
    refine dataOf_joinLines nofun (.cons (dataOf_of_readAll htext) ?_)
    rw [List.forall₂_map_left_iff]
    refine ((List.forall₂_and_left _ _).2 ⟨hmarks, hrest⟩).imp ?_
    rintro text' ds' ⟨hmark, htext'⟩
    rw [← content_ofBytes hmark]
    exact dataOf_of_readAll htext'

end Reader

namespace Shell

open Reader (readAll)

/-! ### Evaluated data -/

namespace Console

variable {fuel : Nat} {c c' : Console}

/-- Evaluation of data goes on where it has not failed. -/
theorem evalData_append_eq (printing : Bool) (ds₁ ds₂ : List Sexp) (c : Console) :
    evalData fuel printing (ds₁ ++ ds₂) c =
      match evalData fuel printing ds₁ c with
      | (none, c) => evalData fuel printing ds₂ c
      | (some message, c) => (some message, c) := by
  induction ds₁ generalizing c with
  | nil => rfl
  | cons d ds₁ ih =>
    rw [List.cons_append, evalData, evalData]
    cases c.eval fuel d with
    | mk outcome c =>
      cases outcome with
      | value v => exact ih _
      | _ => rfl

/-- The data are evaluated in order.  All of them have values, but for the last one if there is a
complaint, which is about that one. -/
inductive Evaluated (fuel : Nat) : Console → List Sexp → Option String → Console → Prop where
  | done (c : Console) : Evaluated fuel c [] none c
  | value {c c₁ c' : Console} {d : Sexp} {v : Value} {ds : List Sexp} {complaint : Option String}
      (h : c.eval fuel d = (.value v, c₁)) (hrest : Evaluated fuel c₁ ds complaint c') :
      Evaluated fuel c (d :: ds) complaint c'
  | failure {c c' : Console} {d : Sexp} {o : Outcome} {message : String}
      (h : c.eval fuel d = (o, c'))
      (ho : complaint? o = some message) : Evaluated fuel c [d] (some message) c'

/-- Data are evaluated up to the first that fails. -/
theorem evaluated_evalData {ds : List Sexp} {complaint : Option String}
    (h : evalData fuel false ds c = (complaint, c')) :
    ∃ done rest, ds = done ++ rest ∧ c.Evaluated fuel done complaint c' ∧
      (complaint = none → rest = []) := by
  induction ds generalizing c with
  | nil =>
    cases h
    exact ⟨[], [], rfl, .done _, fun _ => rfl⟩
  | cons d ds ih =>
    rw [evalData] at h
    cases heval : c.eval fuel d with
    | mk o c₁ =>
      rw [heval] at h
      cases o with
      | value v =>
        obtain ⟨done, rest, rfl, hdone, hrest⟩ := ih h
        exact ⟨d :: done, rest, rfl, .value heval hdone, hrest⟩
      | _ =>
        cases h
        exact ⟨[d], ds, rfl, .failure heval rfl, by rintro ⟨⟩⟩

end Console

/-! ### Files -/

/-- What loading a file leads to, given the complaint about its data. -/
def concluded (name : String) : Option String × Console → Bool × Console
  | (none, c) => (true, c)
  | (some message, c) => (false, c.complain (name ++ ": " ++ message ++ "\n"))

variable {fuel : Nat} {file : String → Except FileError Source}

theorem load_eq {source : Source} {ds : List Sexp} (h : readAll source = .ok ds) (name : String)
    (c : Console) :
    c.load fuel name (.ok source) = concluded name (c.evalData fuel false ds) := by
  unfold Console.load
  simp only
  rw [Console.evalAll_eq h]
  cases c.evalData fuel false ds with
  | mk complaint c => cases complaint <;> rfl

theorem loadAll_cons {name : String} {source : Source} {ds : List Sexp}
    (hfile : file name = .ok source) (h : readAll source = .ok ds) (names : List String)
    (c : Console) :
    loadAll fuel file (name :: names) c =
      match c.evalData fuel false ds with
      | (none, c) => loadAll fuel file names c
      | (some message, c) => concluded name (some message, c) := by
  rw [loadAll, hfile, load_eq h]
  cases c.evalData fuel false ds with
  | mk complaint c => cases complaint <;> rfl

/-- **Several files** are loaded as their data are evaluated, and the complaint is about one of
them. -/
theorem loadAll_eq {names : List String} {texts : List (List UInt8)} {dss : List (List Sexp)}
    (hne : names ≠ [])
    (hfiles : List.Forall₂ (fun name text => file name = .ok (Source.ofBytes text)) names texts)
    (hread : List.Forall₂ (fun text ds => readAll (Source.ofBytes text) = .ok ds) texts dss)
    (c : Console) :
    ∃ name ∈ names, loadAll fuel file names c = concluded name
      (c.evalData fuel false dss.flatten) := by
  induction hfiles generalizing dss c with
  | nil => exact absurd rfl hne
  | @cons name text names texts hfile hfiles ih =>
    cases hread with
    | @cons _ ds _ dss htext hread =>
      rw [loadAll_cons hfile htext, List.flatten_cons, Console.evalData_append_eq]
      cases c.evalData fuel false ds with
      | mk complaint c =>
        cases complaint with
        | some message => exact ⟨name, List.mem_cons_self, rfl⟩
        | none =>
          cases hfiles with
          | nil =>
            cases hread
            exact ⟨name, List.mem_cons_self, rfl⟩
          | cons _ _ =>
            obtain ⟨name', hmem, hload⟩ := ih nofun hread c
            exact ⟨name', List.mem_cons_of_mem _ hmem, hload⟩

/-! ### Whole runs -/

theorem startConsole_eq {o o' : Options} (hdepth : o'.maxDepth = o.maxDepth)
    (hdebug : o'.debug = o.debug) :
    startConsole o' = startConsole o := by
  rw [startConsole, startConsole, hdepth, hdebug]

/-- Behind files that have been loaded, the loop is asked for by a final dash only. -/
theorem interactive_of_files {o : Options} (h : o.files ≠ []) : o.interactive = o.endsInDash := by
  have hne : o.arguments.isEmpty = false := by
    cases harguments : o.arguments with
    | cons _ _ => rfl
    | nil =>
      refine absurd ?_ h
      unfold Options.files
      rw [harguments]
      split_ifs <;> rfl
  rw [Options.interactive, hne, Bool.false_and, Bool.or_false]

/-- Runs that have come to the same console go on alike. -/
theorem run_congr {args args' : List String} {o o' : Options}
    {file' : String → Except FileError Source} (hargs : Command.parse args = .run o)
    (hargs' : Command.parse args' = .run o') {c : Console}
    (h : loadAll fuel file o.files (startConsole o) = (true, c))
    (h' : loadAll fuel file' o'.files (startConsole o') = (true, c))
    (hexpression : o'.expression = o.expression) (hinteractive : o'.interactive = o.interactive)
    (history input : List UInt8) :
    run fuel args' file' history input = run fuel args file history input := by
  rw [run, run, hargs, hargs']
  simp only [runOptions, h, h', evalOption, hexpression, hinteractive]

theorem run_of_failure {args : List String} {o : Options} (hargs : Command.parse args = .run o)
    {c : Console} (h : loadAll fuel file o.files (startConsole o) = (false, c))
    (history input : List UInt8) :
    run fuel args file history input = ⟨c.out, c.err, 1, none⟩ := by
  rw [run, hargs]
  simp only [runOptions, h]

/-- **Several files and one.**  Let one command line ask for files whose texts read well, and
another for one file with these texts joined by line ends, and let them be alike otherwise.  Both
evaluate the same data in order, up to the first that fails if there is one, and both come to the
same console.  If none fails, both go on from there to the same result.  Otherwise both stop there
with the status 1, with complaints that differ in the name of the file only. -/
theorem run_joined {fuel : Nat} {args args' : List String} {o o' : Options}
    {file file' : String → Except FileError Source} {name : String} {texts : List (List UInt8)}
    {dss : List (List Sexp)} (hargs : Command.parse args = .run o)
    (hargs' : Command.parse args' = .run o') (hexpression : o'.expression = o.expression)
    (hdebug : o'.debug = o.debug) (hdepth : o'.maxDepth = o.maxDepth)
    (hdash : o'.endsInDash = o.endsInDash) (hne : o.files ≠ []) (hone : o'.files = [name])
    (hfiles : List.Forall₂ (fun name text => file name = .ok (Source.ofBytes text)) o.files texts)
    (hfile : file' name = .ok (Source.ofBytes (List.intercalate [Line.lineFeed] texts)))
    (hread : List.Forall₂ (fun text ds => readAll (Source.ofBytes text) = .ok ds) texts dss)
    (hmarks : ∀ text ∈ texts.tail, ¬ String.utf8EncodeChar byteOrderMark <+: text)
    (history input : List UInt8) :
    ∃ done rest complaint c, dss.flatten = done ++ rest ∧
      (startConsole o).Evaluated fuel done complaint c ∧ (complaint = none → rest = []) ∧
      startConsole o' = startConsole o ∧
      (complaint = none → loadAll fuel file o.files (startConsole o) = (true, c) ∧
        loadAll fuel file' o'.files (startConsole o') = (true, c) ∧
        run fuel args' file' history input = run fuel args file history input) ∧
      ∀ message, complaint = some message →
        ∃ failed ∈ o.files,
          loadAll fuel file o.files (startConsole o) =
            (false, c.complain (failed ++ ": " ++ message ++ "\n")) ∧
          loadAll fuel file' o'.files (startConsole o') =
            (false, c.complain (name ++ ": " ++ message ++ "\n")) ∧
          run fuel args file history input =
            ⟨c.out, c.err ++ (failed ++ ": " ++ message ++ "\n"), 1, none⟩ ∧
          run fuel args' file' history input =
            ⟨c.out, c.err ++ (name ++ ": " ++ message ++ "\n"), 1, none⟩ := by
  have hstart := startConsole_eq hdepth hdebug
  have htexts : texts ≠ [] := by
    rintro rfl
    exact hne (List.forall₂_nil_right_iff.1 hfiles)
  have hjoined := Reader.readAll_intercalate htexts hread hmarks
  -- both sides evaluate the data of all texts
  obtain ⟨failed, hfailed, hload⟩ := @loadAll_eq fuel file _ _ _ hne hfiles hread (startConsole o)
  have hload' : loadAll fuel file' o'.files (startConsole o') =
      concluded name ((startConsole o).evalData fuel false dss.flatten) := by
    rw [hone, hstart, loadAll_cons hfile hjoined]
    rcases (startConsole o).evalData fuel false dss.flatten with ⟨_ | message, c⟩ <;> rfl
  have hinteractive : o'.interactive = o.interactive := by
    rw [interactive_of_files hne, interactive_of_files (by rw [hone]; nofun), hdash]
  cases heval : (startConsole o).evalData fuel false dss.flatten with
  | mk complaint c =>
    rw [heval] at hload hload'
    obtain ⟨done, rest, hdata, hdone, hrest⟩ := Console.evaluated_evalData heval
    refine ⟨done, rest, complaint, c, hdata, hdone, hrest, hstart, ?_, ?_⟩
    · rintro rfl
      exact ⟨hload, hload', run_congr hargs hargs' hload hload' hexpression hinteractive
        history input⟩
    · rintro message rfl
      exact ⟨failed, hfailed, hload, hload', run_of_failure hargs hload history input,
        run_of_failure hargs' hload' history input⟩

/-- The file `a` holds `#t;` and the file `b` holds `()`, which fails.  One file with both texts
fails in the same way, under its own name. -/
theorem run_joined_comment :
    let file (name : String) : Except FileError Source :=
      .ok (Source.ofBytes (if name = "a" then [35, 116, 59] else [40, 41]))
    let file' (_ : String) : Except FileError Source :=
      .ok (Source.ofBytes (List.intercalate [Line.lineFeed] [[35, 116, 59], [40, 41]]))
    ∃ (c : Console) (message failed : String), failed ∈ ["a", "b"] ∧
      run 20 ["a", "b"] file [] [] =
        ⟨c.out, c.err ++ (failed ++ ": " ++ message ++ "\n"), 1, none⟩ ∧
      run 20 ["c"] file' [] [] = ⟨c.out, c.err ++ ("c" ++ ": " ++ message ++ "\n"), 1, none⟩ := by
  intro file file'
  have hread {bytes : List UInt8} {text : String} {ds : List Sexp}
      (hscript : Script.ofBytes bytes = Script.ofString text)
      (h : readAll (Source.ofString text) = .ok ds) :
      readAll (Source.ofBytes bytes) = .ok ds := by
    rw [Source.ofBytes, hscript]
    exact h
  have ha : readAll (Source.ofBytes [35, 116, 59]) = .ok [.boolean true] :=
    @hread _ "#t;" _ (by decide +kernel) rfl
  have hb : readAll (Source.ofBytes [40, 41]) = .ok [.nil] :=
    @hread _ "()" _ (by decide +kernel) rfl
  have hfails :
      (loadAll 20 file ["a", "b"] (startConsole { arguments := ["a", "b"] })).1 = false := by
    decide +kernel
  obtain ⟨done, rest, complaint, c, -, -, -, -, hgood, hbad⟩ :=
    @run_joined 20 ["a", "b"] ["c"] { arguments := ["a", "b"] }
      { arguments := ["c"] } file file' "c"
      [[35, 116, 59], [40, 41]] [[.boolean true], [.nil]] rfl rfl rfl rfl rfl rfl
      (List.cons_ne_nil _ _) rfl
      (.cons rfl (.cons rfl .nil)) rfl (.cons ha (.cons hb .nil)) (by decide) [] []
  cases complaint with
  | none =>
    have hload := (hgood rfl).1
    rw [show Options.files { arguments := ["a", "b"] } = ["a", "b"] from rfl] at hload
    rw [hload] at hfails
    cases hfails
  | some message =>
    obtain ⟨failed, hfailed, -, -, hrun, hrun'⟩ := hbad message rfl
    exact ⟨c, message, failed, hfailed, hrun, hrun'⟩

end Shell

end Scheme
