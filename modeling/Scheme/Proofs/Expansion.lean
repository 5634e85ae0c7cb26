import Mathlib
import Scheme.Proofs.Calls
import Scheme.Proofs.Effect
import Scheme.Proofs.Rules

/-!
# The expansion of templates

A template is expanded along its structure.  A quotation, that is a two-element list of a keyword of
quasiquotation and an operand, changes the level of its operand; any other list is expanded element
by element, and its elements are put together from the right.  Where a form `(unquote-splicing e)`
is an element, the list that contains it says what becomes of it; anywhere else it is a list like
any other.

* `Scope.expansion_unquote`, `Scope.expansion_quasiquote`, `Scope.expansion_pair`,
  `Scope.expansion_splice`, `Scope.expansion_vector`: one rule for each kind of template;
* `Piece`, `Scope.pieces`, `Effect.assembled`: what the elements of a list expand to, and how it is
  put together;
* `Prelude.allElements`: the elements of lists, one list after the other;
* `Value.Listing`, `Scope.expansion_listing`: the expansion of a list.
-/

namespace Scheme

/-! ### Forms of quasiquotation -/

theorem Datum.eq_nil_of_elements? {ι ξ : Type} {d : Datum ι ξ} (h : d.elements? = some []) :
    d = .nil := by
  cases d with
  | nil => rfl
  | pair l a d =>
    obtain ⟨-, hitems⟩ := Option.ite_none_right_eq_some.1 h
    cases hitems
  | _ => cases h

namespace Value

variable {x y : Value}

/-- A two-element list of a symbol and an operand. -/
theorem isForm_one_iff {head : String} :
    x.IsForm head [y] ↔ ∃ l l', x = .pair l (.symbol head) (.pair l' y .nil) := by
  constructor
  · rintro ⟨l, tail, rfl, htail⟩
    obtain ⟨l', rest, rfl, hrest⟩ := Datum.exists_of_elements? htail
    obtain rfl := Datum.eq_nil_of_elements? hrest
    exact ⟨l, l', rfl⟩
  · rintro ⟨l, l', rfl⟩
    exact ⟨l, _, rfl, rfl⟩

theorem IsForm.head_eq {head head' : String} {operands operands' : List Value}
    (h : x.IsForm head operands) (h' : x.IsForm head' operands') : head = head' := by
  obtain ⟨l, tail, rfl, -⟩ := h
  obtain ⟨l', tail', heq, -⟩ := h'
  simp only [Datum.pair.injEq, Datum.symbol.injEq] at heq
  exact heq.2.1

/-- The template is a quotation: its level or that of its operand is not that of the template around
it. -/
def IsQuotationForm (x : Value) : Prop :=
  ∃ y, x.IsForm Keyword.unquote.name [y] ∨ x.IsForm Keyword.quasiquote.name [y]

/-- A list whose first element is a form is no quotation. -/
theorem not_isQuotationForm_of_element {rest : Value} {l : Label} {head : String}
    (hx : x.IsForm head [y]) :
    ¬ IsQuotationForm (.pair l x rest) := by
  obtain ⟨l₁, l₂, rfl⟩ := isForm_one_iff.1 hx
  rintro ⟨z, hform | hform⟩
  all_goals
    obtain ⟨_, _, heq⟩ := isForm_one_iff.1 hform
    simp at heq

/-- A list whose tail is a form is no quotation. -/
theorem not_isQuotationForm_of_tail {car : Value} {l : Label} {head : String}
    (hx : x.IsForm head [y]) :
    ¬ IsQuotationForm (.pair l car x) := by
  obtain ⟨l₁, l₂, rfl⟩ := isForm_one_iff.1 hx
  rintro ⟨z, hform | hform⟩
  all_goals
    obtain ⟨_, _, heq⟩ := isForm_one_iff.1 hform
    simp at heq

end Value

namespace Config

variable {x y : Value} {k : Keyword}

theorem quasiForm?_of_isForm (hx : x.IsForm k.name [y])
    (hk : k = .unquote ∨ k = .quasiquote ∨ k = .unquoteSplicing) : quasiForm? x = some (k, y) := by
  obtain ⟨l, l', rfl⟩ := Value.isForm_one_iff.1 hx
  rcases hk with rfl | rfl | rfl <;> rfl

theorem isForm_of_quasiForm? (h : quasiForm? x = some (k, y)) : x.IsForm k.name [y] := by
  unfold quasiForm? at h
  split at h
  · rename_i l s l' z
    split_ifs at h with h₁ h₂ h₃
    all_goals
      cases h
      subst s
      exact ⟨l, _, rfl, rfl⟩
  · cases h

/-- The operand of `x`, if `x` is a form whose value is spliced into a list at the level. -/
def splice? (level : Nat) (x : Value) : Option Value :=
  match quasiForm? x with
  | some (.unquoteSplicing, y) => if level = 1 then some y else none
  | _ => none

theorem splice?_of_isForm (hx : x.IsForm Keyword.unquoteSplicing.name [y]) :
    splice? 1 x = some y := by
  rw [splice?, quasiForm?_of_isForm hx (Or.inr (Or.inr rfl))]
  rfl

theorem splice?_of_isForm_unquote (hx : x.IsForm Keyword.unquote.name [y]) (level : Nat) :
    splice? level x = none := by
  rw [splice?, quasiForm?_of_isForm hx (Or.inl rfl)]

theorem splice?_eq_some {level : Nat} (h : splice? level x = some y) :
    level = 1 ∧ x.IsForm Keyword.unquoteSplicing.name [y] := by
  unfold splice? at h
  split at h
  · rename_i z hform
    split_ifs at h with hlevel
    cases h
    exact ⟨hlevel, isForm_of_quasiForm? hform⟩
  · cases h

end Config

/-! ### Steps -/

namespace Config

variable {settings : Settings} {tasks : List Task} {depth level : Nat} {s : Store} {env : FrameId}
variable {x y car cdr : Value} {l : Label}

/-- At level one, an unquotation is evaluated. -/
theorem step_unquote_one (hx : x.IsForm Keyword.unquote.name [y]) :
    step settings ⟨.expand x 1 env, tasks, depth, s⟩ = ⟨.enter y env, tasks, depth, s⟩ := by
  obtain ⟨l, l', rfl⟩ := Value.isForm_one_iff.1 hx
  rfl

/-- Above level one, an unquotation is kept, with its operand one level lower. -/
theorem step_unquote (hx : x.IsForm Keyword.unquote.name [y]) (hlevel : level ≠ 1) :
    step settings ⟨.expand x level env, tasks, depth, s⟩ =
      ⟨.expand y (level - 1) env, .requote Keyword.unquote.name :: tasks, depth, s⟩ := by
  obtain ⟨l, l', rfl⟩ := Value.isForm_one_iff.1 hx
  have hform : quasiForm? (.pair l (.symbol Keyword.unquote.name) (.pair l' y .nil)) =
      some (.unquote, y) := rfl
  simp only [step, expandStep, hform, if_neg hlevel]
  rfl

/-- A quasiquotation is kept, with its operand one level higher. -/
theorem step_quasiquote (hx : x.IsForm Keyword.quasiquote.name [y]) :
    step settings ⟨.expand x level env, tasks, depth, s⟩ =
      ⟨.expand y (level + 1) env, .requote Keyword.quasiquote.name :: tasks, depth, s⟩ := by
  obtain ⟨l, l', rfl⟩ := Value.isForm_one_iff.1 hx
  rfl

theorem step_pair (hx : ¬ Value.IsQuotationForm (.pair l car cdr)) :
    step settings ⟨.expand (.pair l car cdr) level env, tasks, depth, s⟩ =
      expandPair ⟨.expand (.pair l car cdr) level env, tasks, depth, s⟩ car cdr level env := by
  simp only [step, expandStep]
  split
  · rename_i y hform
    exact absurd ⟨y, Or.inl (isForm_of_quasiForm? hform)⟩ hx
  · rename_i y hform
    exact absurd ⟨y, Or.inr (isForm_of_quasiForm? hform)⟩ hx
  · rfl

/-- At level one, an element `(unquote-splicing y)` is evaluated before the rest of the list is
expanded. -/
theorem step_splice (hx : ¬ Value.IsQuotationForm (.pair l car cdr))
    (hcar : car.IsForm Keyword.unquoteSplicing.name [y]) :
    step settings ⟨.expand (.pair l car cdr) 1 env, tasks, depth, s⟩ =
      ⟨.enter y env, .spliceRest cdr env :: tasks, depth, s⟩ := by
  rw [step_pair hx, expandPair, quasiForm?_of_isForm hcar (Or.inr (Or.inr rfl))]
  rfl

/-- Above level one, such an element is kept, with its operand one level lower. -/
theorem step_splice_kept (hx : ¬ Value.IsQuotationForm (.pair l car cdr))
    (hcar : car.IsForm Keyword.unquoteSplicing.name [y]) (hlevel : level ≠ 1) :
    step settings ⟨.expand (.pair l car cdr) level env, tasks, depth, s⟩ =
      ⟨.expand y (level - 1) env,
        .requote Keyword.unquoteSplicing.name :: .expandCdr cdr level env :: tasks,
        depth, s⟩ := by
  simp only [step_pair hx, expandPair, quasiForm?_of_isForm hcar (Or.inr (Or.inr rfl)),
    if_neg hlevel]
  rfl

/-- Any other element is expanded before the rest of the list. -/
theorem step_element (hx : ¬ Value.IsQuotationForm (.pair l car cdr))
    (hcar : ∀ y, ¬ car.IsForm Keyword.unquoteSplicing.name [y]) :
    step settings ⟨.expand (.pair l car cdr) level env, tasks, depth, s⟩ =
      ⟨.expand car level env, .expandCdr cdr level env :: tasks, depth, s⟩ := by
  rw [step_pair hx]
  unfold expandPair
  split
  · rename_i y hform
    exact absurd (isForm_of_quasiForm? hform) (hcar y)
  · rfl

end Config

/-! ### What is made of expanded parts -/

namespace Effect

/-- The quotation whose operand is the value. -/
def requoted (k : Keyword) (m : Effect) : Effect :=
  m.andThen fun v => fresh fun stamp => give (Value.list stamp [.symbol k.name, v] .nil)

/-- The pair of two values.  Its label is made with its first part. -/
def paired (m m' : Effect) : Effect :=
  m.andThen fun v => fresh fun stamp => m'.andThen fun rest => give (.pair ⟨stamp, 0⟩ v rest)

/-- The elements of a list before another value. -/
def spliced (items rest : Value) : Effect :=
  match items.elements? with
  | some xs => fresh fun stamp => give (Value.list stamp xs rest)
  | none => fail { EvalError.notList items.write with name := Keyword.unquoteSplicing.name }

/-- The vector of the elements of a list. -/
def gathered (v : Value) : Effect :=
  match v.elements? with
  | some items => fresh fun stamp => give (.vector ⟨stamp, 0⟩ items)
  | none => fail (.notList v.write)

end Effect

/-! ### The rules -/

namespace Scope

open Effect

variable {w : Scope} {level : Nat} {x y car cdr : Value} {l : Label}

/-- Steps do not change what a control comes to. -/
theorem runs_of_reaches {control control' : Control} {tasks tasks' : List Task} {s s₁ : Store}
    (h : Config.Reaches w.settings ⟨control, tasks, w.depth, s⟩ ⟨control', tasks', w.depth, s₁⟩) :
    w.runs control tasks s = w.runs control' tasks' s₁ :=
  funext fun _ => funext fun _ => propext (exists_congr fun _ => and_congr_left fun _ => h.ends_iff)

/-- What an element of a list expands to, unless its value is spliced. -/
def element (w : Scope) (level : Nat) (x : Value) : Effect :=
  match Config.quasiForm? x with
  | some (.unquoteSplicing, y) => requoted .unquoteSplicing (w.expansion (level - 1) y)
  | _ => w.expansion level x

theorem element_of_isForm (hx : x.IsForm Keyword.unquoteSplicing.name [y]) :
    w.element level x = requoted .unquoteSplicing (w.expansion (level - 1) y) := by
  rw [element, Config.quasiForm?_of_isForm hx (Or.inr (Or.inr rfl))]

theorem element_of_not_isForm (hx : ∀ y, ¬ x.IsForm Keyword.unquoteSplicing.name [y]) :
    w.element level x = w.expansion level x := by
  unfold element
  split
  · rename_i y hform
    exact absurd (Config.isForm_of_quasiForm? hform) (hx y)
  · rfl

theorem element_of_isForm_unquote (hx : x.IsForm Keyword.unquote.name [y]) :
    w.element level x = w.expansion level x :=
  element_of_not_isForm fun _ hy => absurd (hx.head_eq hy) (by decide)

theorem runs_requote (k : Keyword) : w.runs (.expand y level w.env) [.requote k.name] =
    requoted k (w.expansion level y) := by
  have hpass : ∀ t ∈ [Task.requote k.name], t.PassesErrors :=
    List.forall_mem_singleton.2 fun _ _ => rfl
  rw [runs_eq_andThen hpass]
  exact congrArg (andThen _) (funext fun v => funext fun s => runs_of_ret rfl)

/-- What waits for the first part of a pair expands the second part and makes the pair. -/
theorem runs_expandCdr (control : Control) : w.runs control [.expandCdr cdr level w.env] =
    paired (w.runs control []) (w.expansion level cdr) := by
  have hpass : ∀ t ∈ [Task.expandCdr cdr level w.env], t.PassesErrors :=
    List.forall_mem_singleton.2 fun _ _ => rfl
  rw [runs_eq_andThen hpass]
  refine congrArg (andThen _) (funext fun v => funext fun s => ?_)
  have hjoin : ∀ t ∈ [Task.joinCar ⟨s.clock, 0⟩ v], t.PassesErrors :=
    List.forall_mem_singleton.2 fun _ _ => rfl
  have hnext : w.runs (.ret v) [.expandCdr cdr level w.env] s =
      w.runs (.expand cdr level w.env) [.joinCar ⟨s.clock, 0⟩ v] s.tick := runs_of_step rfl
  rw [hnext, runs_eq_andThen hjoin]
  exact congrFun (congrArg (andThen _) (funext fun rest => funext fun s' => runs_of_ret rfl)) s.tick

/-- A kept quotation as the first part of a pair. -/
theorem runs_requote_expandCdr (k : Keyword) (level' : Nat) :
    w.runs (.expand y level' w.env) [.requote k.name, .expandCdr cdr level w.env] =
      paired (requoted k (w.expansion level' y)) (w.expansion level cdr) := by
  have hpass : ∀ t ∈ [Task.requote k.name, .expandCdr cdr level w.env], t.PassesErrors := by
    rw [List.forall_mem_cons, List.forall_mem_singleton]
    exact ⟨fun _ _ => rfl, fun _ _ => rfl⟩
  rw [runs_eq_andThen hpass, paired, requoted, andThen_assoc]
  refine congrArg (andThen _) (funext fun v => funext fun s => ?_)
  have hmake : w.runs (.ret v) [.requote k.name, .expandCdr cdr level w.env] s =
      w.runs (.ret (Value.list s.clock [.symbol k.name, v] .nil))
        [.expandCdr cdr level w.env] s.tick :=
    runs_of_step rfl
  rw [hmake, runs_expandCdr, runs_ret]
  rfl

theorem runs_spliceRest (control : Control) :
    w.runs control [.spliceRest cdr w.env] =
      (w.runs control []).andThen fun v =>
        (w.expansion 1 cdr).andThen fun rest => spliced v rest := by
  have hpass : ∀ t ∈ [Task.spliceRest cdr w.env], t.PassesErrors :=
    List.forall_mem_singleton.2 fun _ _ => rfl
  rw [runs_eq_andThen hpass]
  refine congrArg (andThen _) (funext fun v => ?_)
  have hinto : ∀ t ∈ [Task.spliceInto v], t.PassesErrors :=
    List.forall_mem_singleton.2 fun _ _ => rfl
  have hnext : w.runs (.ret v) [.spliceRest cdr w.env] =
      w.runs (.expand cdr 1 w.env) [.spliceInto v] := funext fun s => runs_of_step rfl
  rw [hnext, runs_eq_andThen hinto]
  refine congrArg (andThen _) (funext fun rest => funext fun s => ?_)
  have hstep : Config.step w.settings ⟨.ret rest, [.spliceInto v], w.depth, s⟩ =
      Config.resume ⟨.ret rest, [], w.depth, s⟩ (.spliceInto v) rest := rfl
  unfold spliced
  cases hitems : v.elements? with
  | some xs =>
    refine runs_of_ret (hstep.trans ?_)
    simp only [Config.resume, hitems]
    rfl
  | none =>
    refine runs_of_fail (hstep.trans ?_)
    simp only [Config.resume, hitems]
    rfl

theorem runs_gather (control : Control) : w.runs control [.gather] =
    (w.runs control []).andThen gathered := by
  have hpass : ∀ t ∈ [Task.gather], t.PassesErrors := List.forall_mem_singleton.2 fun _ _ => rfl
  rw [runs_eq_andThen hpass]
  refine congrArg (andThen _) (funext fun v => funext fun s => ?_)
  have hstep : Config.step w.settings ⟨.ret v, [.gather], w.depth, s⟩ =
      Config.resume ⟨.ret v, [], w.depth, s⟩ .gather v := rfl
  unfold gathered
  cases hitems : v.elements? with
  | some items =>
    refine runs_of_ret (hstep.trans ?_)
    simp only [Config.resume, hitems]
    rfl
  | none =>
    refine runs_of_fail (hstep.trans ?_)
    simp only [Config.resume, hitems]
    rfl

theorem expansion_unquote_one (hx : x.IsForm Keyword.unquote.name [y]) :
    w.expansion 1 x = w.evaluation y :=
  funext fun _ => runs_of_step (Config.step_unquote_one hx)

theorem expansion_unquote (hx : x.IsForm Keyword.unquote.name [y]) (hlevel : level ≠ 1) :
    w.expansion level x = requoted .unquote (w.expansion (level - 1) y) := by
  rw [← runs_requote]
  exact funext fun s => runs_of_step (Config.step_unquote hx hlevel)

theorem expansion_quasiquote (hx : x.IsForm Keyword.quasiquote.name [y]) :
    w.expansion level x = requoted .quasiquote (w.expansion (level + 1) y) := by
  rw [← runs_requote]
  exact funext fun s => runs_of_step (Config.step_quasiquote hx)

/-- At level one, a list whose value is spliced stands before the expansion of the rest. -/
theorem expansion_splice (hx : ¬ Value.IsQuotationForm (.pair l car cdr))
    (hcar : Config.splice? level car = some y) : w.expansion level (.pair l car cdr) =
      (w.evaluation y).andThen fun v => (w.expansion level cdr).andThen fun rest =>
        spliced v rest := by
  obtain ⟨rfl, hform⟩ := Config.splice?_eq_some hcar
  rw [evaluation, ← runs_spliceRest]
  exact funext fun s => runs_of_step (Config.step_splice hx hform)

/-- **A pair that is no quotation** is expanded part by part. -/
theorem expansion_pair (hx : ¬ Value.IsQuotationForm (.pair l car cdr))
    (hcar : Config.splice? level car = none) :
    w.expansion level (.pair l car cdr) = paired (w.element level car) (w.expansion level cdr) := by
  by_cases hform : ∃ y, car.IsForm Keyword.unquoteSplicing.name [y]
  · obtain ⟨y, hform⟩ := hform
    have hlevel : level ≠ 1 := by
      rintro rfl
      rw [Config.splice?_of_isForm hform] at hcar
      cases hcar
    rw [element_of_isForm hform, ← runs_requote_expandCdr]
    exact funext fun s => runs_of_step (Config.step_splice_kept hx hform hlevel)
  · have hother : ∀ y, ¬ car.IsForm Keyword.unquoteSplicing.name [y] := fun y hy => hform ⟨y, hy⟩
    rw [element_of_not_isForm hother, expansion, expansion, ← runs_expandCdr]
    exact funext fun s => runs_of_step (Config.step_element hx hother)

/-- The items of a vector are expanded as a list. -/
theorem expansion_vector (l : Label) (items : List Value) : w.expansion level (.vector l items) =
    fresh fun stamp => (w.expansion level (Value.list stamp items .nil)).andThen gathered := by
  funext s
  have hlist : w.expansion level (.vector l items) s =
      w.runs (.expand (Value.list s.clock items .nil) level w.env) [.gather] s.tick :=
        runs_of_step rfl
  rw [hlist, runs_gather]
  rfl

/-- Other templates expand to themselves. -/
theorem expansion_atom (hpair : ∀ l a d, x ≠ .pair l a d)
    (hvector : ∀ l items, x ≠ .vector l items) :
    w.expansion level x = give x := by
  refine funext fun s => runs_of_ret ?_
  cases x with
  | pair l a d => exact absurd rfl (hpair l a d)
  | vector l items => exact absurd rfl (hvector l items)
  | _ => rfl

theorem expansion_nil : w.expansion level .nil = give .nil := expansion_atom nofun nofun

/-- Symbols, `()` and pairs apart, expressions evaluate to themselves. -/
theorem evaluation_constant (hdepth : w.settings.Allows w.depth) (hpair : ∀ l a d, x ≠ .pair l a d)
    (hsymbol : ∀ name, x ≠ .symbol name) (hnil : x ≠ .nil) : w.evaluation x = give x := by
  have hgives (s : Store) : Config.Gives w.settings (.eval x w.env) (w.depth + 1) s x s := by
    refine fun tasks => .single ?_
    cases x with
    | pair l a d => exact absurd rfl (hpair l a d)
    | symbol name => exact absurd rfl (hsymbol name)
    | nil => exact absurd rfl hnil
    | _ => rfl
  funext s
  rw [evaluation, runs_of_reaches ((hgives s).enter hdepth []), runs_ret]

end Scope

/-! ### Elements of lists -/

namespace Prelude

/-- The elements of all lists, one list after the other; the last argument that is no list fails. -/
def allElements : List Value → Except EvalError (List Value)
  | [] => .ok []
  | v :: rest => do
    let more ← allElements rest
    match v.elements? with
    | some items => .ok (items ++ more)
    | none => .error (.notList v.write)

theorem allElements_cons_some {v : Value} {vs items more : List Value}
    (hv : v.elements? = some items) (hvs : allElements vs = .ok more) :
    allElements (v :: vs) = .ok (items ++ more) := by
  rw [allElements, hvs]
  show (match v.elements? with | some items => _ | none => _) = _
  rw [hv]

theorem allElements_cons_none {v : Value} {vs more : List Value} (hv : v.elements? = none)
    (hvs : allElements vs = .ok more) : allElements (v :: vs) = .error (.notList v.write) := by
  rw [allElements, hvs]
  show (match v.elements? with | some items => _ | none => _) = _
  rw [hv]

theorem allElements_cons_error {v : Value} {vs : List Value} {e : EvalError}
    (hvs : allElements vs = .error e) :
    allElements (v :: vs) = .error e := by
  rw [allElements, hvs]
  rfl

end Prelude

/-! ### Pieces of lists -/

/-- What an element of a list expands to: an item of the list, with the label of its pair, or a
value whose elements are items of the list. -/
inductive Piece where
  | item (label : Label) (v : Value)
  | splice (v : Value)

/-- The items of a piece, as a list. -/
def Piece.list : Piece → Value
  | .item label v => .pair label v .nil
  | .splice v => v

namespace Effect

/-- The list of the items of pieces before a value, put together from the right. -/
def assembled : List Piece → Value → Effect
  | [], t => give t
  | .item label v :: ps, t => (assembled ps t).andThen fun rest => give (.pair label v rest)
  | .splice v :: ps, t => (assembled ps t).andThen fun rest => spliced v rest

/-- An error of a list that is to be spliced. -/
def spliceError (e : EvalError) : EvalError := { e with name := Keyword.unquoteSplicing.name }

/-- The outcome has the items of the pieces before those of a value, or says which piece is no
list. -/
def Assembles (ps : List Piece) (t : Value) (o : Outcome) : Prop :=
  match Prelude.allElements (ps.map Piece.list) with
  | .ok items => ∃ v : Value, o = .value v ∧ v.spine = (items ++ t.spine.1, t.spine.2)
  | .error e => o = .error (spliceError e)

/-- The items of a piece before a value. -/
def before : Piece → Value → Effect
  | .item label v, rest => give (.pair label v rest)
  | .splice v, rest => spliced v rest

theorem assembled_cons (p : Piece) (ps : List Piece) (t : Value) :
    assembled (p :: ps) t = (assembled ps t).andThen (before p) := by
  cases p <;> rfl

/-- One more piece before the items of others. -/
theorem comesTo_before (p : Piece) {ps : List Piece} {t rest : Value} {more : List Value}
    (hps : Prelude.allElements (ps.map Piece.list) = .ok more)
    (hrest : rest.spine = (more ++ t.spine.1, t.spine.2)) (s : Store) :
    (before p rest).ComesTo s (Assembles (p :: ps) t) := by
  cases p with
  | item label v =>
    have hall : Prelude.allElements ((Piece.item label v :: ps).map Piece.list) =
        .ok ([v] ++ more) :=
      Prelude.allElements_cons_some rfl hps
    refine comesTo_give ?_ s
    rw [Assembles, hall]
    exact ⟨_, rfl, by rw [Datum.spine_pair, hrest]; rfl⟩
  | splice v =>
    show (spliced v rest).ComesTo s _
    unfold spliced
    cases hitems : v.elements? with
    | some items =>
      have hall : Prelude.allElements ((Piece.splice v :: ps).map Piece.list) =
          .ok (items ++ more) :=
        Prelude.allElements_cons_some hitems hps
      refine ComesTo.fresh (comesTo_give ?_ _)
      rw [Assembles, hall]
      exact ⟨_, rfl, by rw [Value.spine_list, hrest, List.append_assoc]⟩
    | none =>
      have hall : Prelude.allElements ((Piece.splice v :: ps).map Piece.list) =
          .error (.notList v.write) :=
        Prelude.allElements_cons_none hitems hps
      refine comesTo_fail ?_ s
      rw [Assembles, hall]
      rfl

/-- **Pieces are put together** to their items, one after the other. -/
theorem comesTo_assembled (ps : List Piece) (t : Value) (s : Store) :
    (assembled ps t).ComesTo s (Assembles ps t) := by
  induction ps with
  | nil => exact comesTo_give ⟨t, rfl, rfl⟩ s
  | cons p ps ih =>
    rw [assembled_cons]
    unfold Assembles at ih
    cases hps : Prelude.allElements (ps.map Piece.list) with
    | error e =>
      -- the error comes from the pieces on the right
      simp only [hps] at ih
      unfold Assembles
      rw [List.map_cons, Prelude.allElements_cons_error hps]
      exact ih.andThen_error (before p)
    | ok more =>
      simp only [hps] at ih
      exact ih.andThen_value fun rest s hrest => comesTo_before p hps hrest s

end Effect

namespace Scope

open Effect

variable {w : Scope} {level : Nat}

/-- Expand the elements of a list one after the other, then do `last`, and go on with the pieces and
with the value of `last`.  At level one the operand of a form `(unquote-splicing e)` is evaluated
and its value is spliced; any other element is expanded to an item. -/
def pieces (w : Scope) (level : Nat) : List Value → Effect → (List Piece → Value → Effect) → Effect
  | [], last, k => last.andThen (k [])
  | x :: xs, last, k =>
    match Config.splice? level x with
    | some y =>
      (w.evaluation y).andThen fun v => w.pieces level xs last fun ps => k (.splice v :: ps)
    | none =>
      (w.element level x).andThen fun v => fresh fun stamp =>
        w.pieces level xs last fun ps => k (.item ⟨stamp, 0⟩ v :: ps)

theorem pieces_andThen (xs : List Value) (last : Effect) (k : List Piece → Value → Effect)
    (j : Value → Effect) :
    (w.pieces level xs last k).andThen j =
      w.pieces level xs last fun ps t => (k ps t).andThen j := by
  induction xs generalizing k with
  | nil => exact andThen_assoc _ _ _
  | cons x xs ih =>
    unfold pieces
    split
    · rw [andThen_assoc]
      exact congrArg (andThen _) (funext fun v => ih _)
    · rw [andThen_assoc]
      refine congrArg (andThen _) (funext fun v => ?_)
      rw [fresh_andThen]
      exact congrArg fresh (funext fun stamp => ih _)

/-- The value of what comes last, if it is known. -/
theorem pieces_give (xs : List Value) (t : Value) (k : List Piece → Value → Effect) :
    w.pieces level xs (give t) k = w.pieces level xs (give t) fun ps _ => k ps t := by
  induction xs generalizing k with
  | nil =>
    unfold pieces
    rw [give_andThen, give_andThen]
  | cons x xs ih =>
    unfold pieces
    split
    · exact congrArg (andThen _) (funext fun v => ih _)
    · exact congrArg (andThen _) (funext fun v => congrArg fresh (funext fun stamp => ih _))

theorem Agree.pieces {same : EvalError → EvalError → Prop} (hsame : ∀ e, same e e) (xs : List Value)
    (last : Effect) {k k' : List Piece → Value → Effect}
    (h : ∀ ps t, Agree same (k ps t) (k' ps t)) :
    Agree same (w.pieces level xs last k) (w.pieces level xs last k') := by
  induction xs generalizing k k' with
  | nil => exact Effect.Agree.andThen hsame last fun t => h [] t
  | cons x xs ih =>
    unfold Scope.pieces
    split
    · exact Effect.Agree.andThen hsame _ fun v => ih fun ps t => h _ t
    · exact Effect.Agree.andThen hsame _ fun v =>
        Effect.Agree.fresh fun stamp => ih fun ps t => h _ t

end Scope

/-! ### Lists -/

/-- The template lists the elements before the tail, and no part of it on the way there is a
quotation. -/
inductive Value.Listing : List Value → Value → Value → Prop where
  | nil (tail : Value) : Listing [] tail tail
  | cons {l : Label} {x rest : Value} {xs : List Value} {tail : Value}
      (hx : ¬ Value.IsQuotationForm (.pair l x rest)) (hrest : Listing xs tail rest) :
      Listing (x :: xs) tail (.pair l x rest)

namespace Scope

open Effect

variable {w : Scope} {level : Nat}

/-- **A list is expanded element by element**, then its tail, and put together from the right. -/
theorem expansion_listing {xs : List Value} {tail x : Value} (h : Value.Listing xs tail x) :
    w.expansion level x = w.pieces level xs (w.expansion level tail) assembled := by
  induction h with
  | nil tail => exact (andThen_give _).symm
  | @cons l x rest xs tail hx _ ih =>
    unfold pieces
    cases hsplice : Config.splice? level x with
    | some y =>
      rw [expansion_splice hx hsplice, ih]
      exact congrArg (andThen _) (funext fun v => pieces_andThen _ _ _ _)
    | none =>
      rw [expansion_pair hx hsplice, ih]
      refine congrArg (andThen _) (funext fun v => congrArg fresh (funext fun stamp => ?_))
      exact pieces_andThen _ _ _ _

end Scope

end Scheme
