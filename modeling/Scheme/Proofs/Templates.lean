import Mathlib
import Scheme.Proofs.Expansion

/-!
# Laws of templates

Three laws of quasiquotation.  A template in which fewer unquotations occur than its level says is
only copied.  A form `(unquote-splicing e)` above level one counts as an unquotation where it is an
element of a list, and nowhere else.  A vector is expanded item by item, unless its last two items
look like a quotation.

* `Datum.occurrences`, `Value.unquotes`: how often symbols occur in a datum;
* `Config.ReachesQuietly`: steps that neither evaluate nor call anything;
* `Value.Copies`, `copies_of_unquotes_lt`: templates that are copied;
* `Scope.expansion_splicing`: forms `(unquote-splicing e)` inside nested quotations;
* `Value.EndInQuotation`, `Scope.expansion_items`: the items of a vector.
-/

namespace Scheme

/-! ### Templates that are copied -/

namespace Datum

variable {ι ξ : Type}

mutual

/-- How often the symbols with the given names occur in a datum. -/
def occurrences (names : List String) : Datum ι ξ → Nat
  | .symbol s => if s ∈ names then 1 else 0
  | .pair _ car cdr => car.occurrences names + cdr.occurrences names
  | .vector _ items => itemOccurrences names items
  | _ => 0

/-- How often the symbols with the given names occur in data. -/
def itemOccurrences (names : List String) : List (Datum ι ξ) → Nat
  | [] => 0
  | x :: xs => x.occurrences names + itemOccurrences names xs

end

end Datum

namespace Value

/-- How often the symbols `unquote` and `unquote-splicing` occur. -/
def unquotes (x : Value) : Nat := x.occurrences [Keyword.unquote.name, Keyword.unquoteSplicing.name]

@[simp] theorem unquotes_pair (l : Label) (car cdr : Value) :
    unquotes (.pair l car cdr) = car.unquotes + cdr.unquotes := by
  rw [unquotes, Datum.occurrences]
  rfl

theorem unquotes_listFrom (stamp index : Nat) (items : List Value) (l : Label) :
    (listFrom stamp index items .nil).unquotes = unquotes (.vector l items) := by
  rw [unquotes, unquotes, Datum.occurrences]
  induction items generalizing index with
  | nil => rfl
  | cons x items ih => rw [listFrom, Datum.occurrences, ih, Datum.itemOccurrences]

end Value

/-- The control neither evaluates nor calls anything. -/
def Control.IsQuiet : Control → Prop
  | .expand .. => True
  | .ret _ => True
  | _ => False

namespace Config

/-- Some steps that neither evaluate nor call anything lead from the first configuration to the
second. -/
def ReachesQuietly (settings : Settings) : Config → Config → Prop :=
  Relation.ReflTransGen fun c c' => c.control.IsQuiet ∧ c.step settings = c'

variable {settings : Settings} {c c' c'' : Config}

theorem ReachesQuietly.trans (h : ReachesQuietly settings c c')
    (h' : ReachesQuietly settings c' c'') :
    ReachesQuietly settings c c'' :=
  Relation.ReflTransGen.trans h h'

theorem ReachesQuietly.single (hc : c.control.IsQuiet) (h : c.step settings = c') :
    ReachesQuietly settings c c' :=
  Relation.ReflTransGen.single ⟨hc, h⟩

end Config

/-- The template is copied at the level: it expands to itself but for labels, whatever waits for it
and in whatever store, without an evaluation or a call, and changes nothing but the clock. -/
def Value.Copies (settings : Settings) (env : FrameId) (level : Nat) (x : Value) : Prop :=
  ∀ tasks depth s, ∃ (v : Value) (n : Nat), v.unlabelled = x.unlabelled ∧
    Config.ReachesQuietly settings ⟨.expand x level env, tasks, depth, s⟩
      ⟨.ret v, tasks, depth, { s with clock := n }⟩

namespace Value

open Config

variable {settings : Settings} {env : FrameId} {level : Nat} {x y car cdr : Value} {l : Label}

theorem copies_atom (hstep : ∀ tasks depth s, step settings ⟨.expand x level env, tasks, depth, s⟩ =
    ⟨.ret x, tasks, depth, s⟩) : Copies settings env level x :=
  fun tasks depth s => ⟨x, s.clock, rfl, .single trivial (hstep tasks depth s)⟩

/-- A quotation that is kept is copied if its operand is. -/
theorem copies_of_kept {k : Keyword} {level' : Nat} (hx : x.IsForm k.name [y])
    (hstep : ∀ tasks depth s, step settings ⟨.expand x level env, tasks, depth, s⟩ =
      ⟨.expand y level' env, .requote k.name :: tasks, depth, s⟩)
    (hy : Copies settings env level' y) : Copies settings env level x := by
  intro tasks depth s
  obtain ⟨v, n, hv, hreaches⟩ := hy (.requote k.name :: tasks) depth s
  have hfirst : ReachesQuietly settings ⟨.expand x level env, tasks, depth, s⟩
      ⟨.expand y level' env, .requote k.name :: tasks, depth, s⟩ :=
        .single trivial (hstep tasks depth s)
  have hlast :
      ReachesQuietly settings ⟨.ret v, .requote k.name :: tasks, depth, { s with clock := n }⟩
      ⟨.ret (Value.list n [.symbol k.name, v] .nil), tasks, depth, { s with clock := n + 1 }⟩ :=
    .single trivial rfl
  refine ⟨_, n + 1, ?_, hfirst.trans (hreaches.trans hlast)⟩
  obtain ⟨l, l', rfl⟩ := isForm_one_iff.1 hx
  show Datum.pair () _ (.pair () v.unlabelled .nil) = .pair () _ (.pair () y.unlabelled .nil)
  rw [hv]

/-- What waits for the first part of a pair copies the second part and makes the pair. -/
theorem exists_reachesQuietly_pair (hcdr : Copies settings env level cdr) (v : Value)
    (tasks : List Task) (depth : Nat) (s : Store) :
    ∃ (r : Value) (n : Nat), r.unlabelled = .pair () v.unlabelled cdr.unlabelled ∧
      ReachesQuietly settings ⟨.ret v, .expandCdr cdr level env :: tasks, depth, s⟩
        ⟨.ret r, tasks, depth, { s with clock := n }⟩ := by
  obtain ⟨rest, n, hrest, hreaches⟩ := hcdr (.joinCar ⟨s.clock, 0⟩ v :: tasks) depth s.tick
  have hfirst : ReachesQuietly settings ⟨.ret v, .expandCdr cdr level env :: tasks, depth, s⟩
      ⟨.expand cdr level env, .joinCar ⟨s.clock, 0⟩ v :: tasks, depth, s.tick⟩ :=
        .single trivial rfl
  have hlast : ReachesQuietly settings
      ⟨.ret rest, .joinCar ⟨s.clock, 0⟩ v :: tasks, depth, { s.tick with clock := n }⟩
      ⟨.ret (.pair ⟨s.clock, 0⟩ v rest), tasks, depth, { s with clock := n }⟩ := .single trivial rfl
  refine ⟨_, n, ?_, hfirst.trans (hreaches.trans hlast)⟩
  rw [Datum.unlabelled, hrest]

/-- A pair whose first part is expanded first is copied if its parts are. -/
theorem copies_of_parts
    (hstep : ∀ tasks depth s, step settings ⟨.expand (.pair l car cdr) level env, tasks, depth, s⟩ =
      ⟨.expand car level env, .expandCdr cdr level env :: tasks, depth, s⟩)
    (hcar : Copies settings env level car) (hcdr : Copies settings env level cdr) :
    Copies settings env level (.pair l car cdr) := by
  intro tasks depth s
  obtain ⟨v, n, hv, hreaches⟩ := hcar (.expandCdr cdr level env :: tasks) depth s
  obtain ⟨r, n', hr, hrest⟩ := exists_reachesQuietly_pair hcdr v tasks depth { s with clock := n }
  have hfirst : ReachesQuietly settings ⟨.expand (.pair l car cdr) level env, tasks, depth, s⟩
      ⟨.expand car level env, .expandCdr cdr level env :: tasks, depth, s⟩ :=
        .single trivial (hstep tasks depth s)
  refine ⟨r, n', ?_, hfirst.trans (hreaches.trans hrest)⟩
  rw [hr, Datum.unlabelled, hv]

/-- A list whose first element is kept, one level lower, is copied if its operand and its rest
are. -/
theorem copies_of_splice (hx : ¬ IsQuotationForm (.pair l car cdr))
    (hform : car.IsForm Keyword.unquoteSplicing.name [y]) (hlevel : level ≠ 1)
    (hy : Copies settings env (level - 1) y) (hcdr : Copies settings env level cdr) :
    Copies settings env level (.pair l car cdr) := by
  intro tasks depth s
  obtain ⟨v, n, hv, hreaches⟩ :=
    hy (.requote Keyword.unquoteSplicing.name :: .expandCdr cdr level env :: tasks) depth s
  have hmake : ReachesQuietly settings
      ⟨.ret v, .requote Keyword.unquoteSplicing.name :: .expandCdr cdr level env :: tasks, depth,
        { s with clock := n }⟩
      ⟨.ret (Value.list n [.symbol Keyword.unquoteSplicing.name, v] .nil),
        .expandCdr cdr level env :: tasks,
        depth, { s with clock := n + 1 }⟩ := .single trivial rfl
  obtain ⟨r, n', hr, hrest⟩ := exists_reachesQuietly_pair hcdr
    (Value.list n [.symbol Keyword.unquoteSplicing.name, v] .nil) tasks depth
    { s with clock := n + 1 }
  have hfirst : ReachesQuietly settings ⟨.expand (.pair l car cdr) level env, tasks, depth, s⟩ _ :=
    .single trivial (step_splice_kept hx hform hlevel)
  refine ⟨r, n', ?_, hfirst.trans (hreaches.trans (hmake.trans hrest))⟩
  obtain ⟨l', l'', rfl⟩ := isForm_one_iff.1 hform
  rw [hr, Datum.unlabelled]
  show Datum.pair () (.pair () _ (.pair () v.unlabelled .nil)) _ =
    .pair () (.pair () _ (.pair () y.unlabelled .nil)) _
  rw [hv]

/-- Every part of a list that the expansion may take for an operand is copied above the number of
its unquotations, and so is the list. -/
def Copied (settings : Settings) (env : FrameId) (x : Value) : Prop :=
  (∀ level, x.unquotes < level → Copies settings env level x) ∧
    ∀ y : Value, y ∈ x.elements → ∀ level, y.unquotes < level → Copies settings env level y

theorem mem_elements_of_isForm {head : String} (hx : x.IsForm head [y]) : y ∈ x.elements := by
  obtain ⟨l, l', rfl⟩ := isForm_one_iff.1 hx
  exact List.mem_cons_of_mem _ List.mem_cons_self

theorem unquotes_of_isForm {head : String} (hx : x.IsForm head [y]) :
    x.unquotes = unquotes (.symbol head) + y.unquotes := by
  obtain ⟨l, l', rfl⟩ := isForm_one_iff.1 hx
  rw [unquotes_pair, unquotes_pair]
  rfl

/-- **A pair** is copied if its parts are. -/
theorem copied_pair (hcar : Copied settings env car) (hcdr : Copied settings env cdr) :
    Copied settings env (.pair l car cdr) := by
  have helements : ∀ y : Value, y ∈ Datum.elements (.pair l car cdr) →
      ∀ level, y.unquotes < level → Copies settings env level y :=
        List.forall_mem_cons.2 ⟨hcar.1, hcdr.2⟩
  refine ⟨fun level hlevel => ?_, helements⟩
  by_cases hquotation : IsQuotationForm (.pair l car cdr)
  · obtain ⟨y, hform | hform⟩ := hquotation
    · -- an unquotation counts, so there is a level below
      have hcount := unquotes_of_isForm hform
      have hone : unquotes (.symbol Keyword.unquote.name) = 1 := rfl
      refine copies_of_kept hform (fun tasks depth s => step_unquote hform (by omega)) ?_
      exact helements y (mem_elements_of_isForm hform) _ (by omega)
    · have hcount := unquotes_of_isForm hform
      refine copies_of_kept hform (fun tasks depth s => step_quasiquote hform) ?_
      exact helements y (mem_elements_of_isForm hform) _ (by omega)
  · rw [unquotes_pair] at hlevel
    by_cases hsplice : ∃ y, car.IsForm Keyword.unquoteSplicing.name [y]
    · obtain ⟨y, hform⟩ := hsplice
      have hcount := unquotes_of_isForm hform
      have hone : unquotes (.symbol Keyword.unquoteSplicing.name) = 1 := rfl
      refine copies_of_splice hquotation hform (by omega) ?_ (hcdr.1 level (by omega))
      exact hcar.2 y (mem_elements_of_isForm hform) _ (by omega)
    · have hother : ∀ y, ¬ car.IsForm Keyword.unquoteSplicing.name [y] :=
        fun y hy => hsplice ⟨y, hy⟩
      exact copies_of_parts (fun tasks depth s => step_element hquotation hother)
        (hcar.1 level (by omega))
        (hcdr.1 level (by omega))

theorem copied_listFrom {items : List Value} (h : ∀ x ∈ items, Copied settings env x)
    (hnil : Copied settings env .nil) (stamp index : Nat) :
    Copied settings env (listFrom stamp index items .nil) := by
  induction items generalizing index with
  | nil => exact hnil
  | cons x items ih =>
    rw [List.forall_mem_cons] at h
    exact copied_pair h.1 (ih h.2 (index + 1))

/-- The list of the items of a vector ends in `()` and holds items that are copied, so its copy does
too. -/
theorem elements?_of_unlabelled {v : Value} {items : List Value} {stamp index : Nat}
    (h : v.unlabelled = (listFrom stamp index items .nil).unlabelled) :
    ∃ copies, v.elements? = some copies ∧
      Datum.unlabelledItems copies = Datum.unlabelledItems items := by
  induction items generalizing v index with
  | nil =>
    cases v with
    | nil => exact ⟨[], rfl, rfl⟩
    | _ => cases h
  | cons x items ih =>
    cases v with
    | pair l a d =>
      simp only [listFrom, Datum.unlabelled, Datum.pair.injEq, true_and] at h
      obtain ⟨copies, helements, hcopies⟩ := ih h.2
      refine ⟨a :: copies, ?_, by rw [Datum.unlabelledItems, Datum.unlabelledItems, h.1, hcopies]⟩
      obtain ⟨hnil, hitems⟩ := Option.ite_none_right_eq_some.1 helements
      cases hitems
      exact if_pos hnil
    | _ => cases h

theorem copied_vector {items : List Value} (h : ∀ x ∈ items, Copied settings env x)
    (hnil : Copied settings env .nil) : Copied settings env (.vector l items) := by
  refine ⟨fun level hlevel tasks depth s => ?_, List.forall_mem_nil _⟩
  rw [← unquotes_listFrom s.clock 0] at hlevel
  obtain ⟨v, n, hv, hreaches⟩ :=
    (copied_listFrom h hnil s.clock 0).1 level hlevel (.gather :: tasks) depth s.tick
  obtain ⟨copies, helements, hcopies⟩ := elements?_of_unlabelled hv
  have hfirst : ReachesQuietly settings ⟨.expand (.vector l items) level env, tasks, depth, s⟩
      ⟨.expand (listFrom s.clock 0 items .nil) level env, .gather :: tasks, depth, s.tick⟩ :=
        .single trivial rfl
  have hlast : ReachesQuietly settings ⟨.ret v, .gather :: tasks, depth, { s.tick with clock := n }⟩
      ⟨.ret (.vector ⟨n, 0⟩ copies), tasks, depth, { s with clock := n + 1 }⟩ := by
    refine .single trivial ?_
    have hresume : step settings ⟨.ret v, .gather :: tasks, depth, { s.tick with clock := n }⟩ =
        resume ⟨.ret v, tasks, depth, { s.tick with clock := n }⟩ .gather v := rfl
    simp only [hresume, resume, helements]
    rfl
  refine ⟨_, n + 1, ?_, hfirst.trans (hreaches.trans hlast)⟩
  rw [Datum.unlabelled, Datum.unlabelled, hcopies]

theorem copied_atom
    (hstep : ∀ level tasks depth s, step settings ⟨.expand x level env, tasks, depth, s⟩ =
    ⟨.ret x, tasks, depth, s⟩) (hx : x.elements = []) : Copied settings env x :=
  ⟨fun level _ => copies_atom (hstep level), by rw [hx]; exact List.forall_mem_nil _⟩

mutual

theorem copied (settings : Settings) (env : FrameId) : (x : Value) → Copied settings env x
  | .pair _ car cdr => copied_pair (copied settings env car) (copied settings env cdr)
  | .vector _ items =>
    copied_vector (copied_items settings env items) (copied_atom (fun _ _ _ _ => rfl) rfl)
  | .symbol _ | .boolean _ | .char _ | .string _ | .number _ | .nil | .bytes _ _ | .object _ =>
    copied_atom (fun _ _ _ _ => rfl) rfl

theorem copied_items (settings : Settings) (env : FrameId) :
    (items : List Value) → ∀ x ∈ items, Copied settings env x
  | [] => List.forall_mem_nil _
  | x :: items => List.forall_mem_cons.2 ⟨copied settings env x, copied_items settings env items⟩

end

end Value

/-- **A template in which fewer unquotations occur than its level says is copied**: in every frame,
under every bound and in every store it expands to a datum that is the same but for labels, without
an evaluation or a call, and changes nothing but the clock. -/
theorem copies_of_unquotes_lt (settings : Settings) (env : FrameId) {x : Value} {level : Nat}
    (h : x.unquotes < level) : x.Copies settings env level :=
  (Value.copied settings env x).1 level h

/-- The vector `#(unquote (unquote-splicing a))` is copied at level three, although its items look
like an unquotation. -/
theorem copies_of_unquotes_lt_vector :
    let x : Value :=
      .vector ⟨0, 0⟩
        [.symbol "unquote", Value.list 1 [.symbol "unquote-splicing", .symbol "a"] .nil]
    x.unquotes = 2 ∧ x.Copies (.ofBound 1) Store.global 3 :=
  ⟨by decide, copies_of_unquotes_lt (.ofBound 1) Store.global (by decide)⟩

/-! ### Splicing inside nested quotations -/

namespace Scope

open Effect

variable {w : Scope} {level : Nat}

theorem splice?_eq_none (hlevel : level ≠ 1) (x : Value) : Config.splice? level x = none := by
  cases hsplice : Config.splice? level x with
  | none => rfl
  | some y => exact absurd (Config.splice?_eq_some hsplice).1 hlevel

/-- A form `(unquote-splicing e)` that is expanded alone is a list of two elements. -/
theorem expansion_splicing_alone {x e : Value} (hlevel : level ≠ 1)
    (hx : x.IsForm Keyword.unquoteSplicing.name [e]) : w.expansion level x =
      paired (give (.symbol Keyword.unquoteSplicing.name))
        (paired (w.element level e) (give .nil)) := by
  obtain ⟨l, l', rfl⟩ := Value.isForm_one_iff.1 hx
  have hwhole : ¬ Value.IsQuotationForm
      (.pair l (.symbol Keyword.unquoteSplicing.name) (.pair l' e .nil)) := by
    rintro ⟨y, hform | hform⟩
    · exact absurd (hx.head_eq hform) (by decide)
    · exact absurd (hx.head_eq hform) (by decide)
  have hrest : ¬ Value.IsQuotationForm (.pair l' e .nil) := by
    rintro ⟨y, hform | hform⟩
    all_goals
      obtain ⟨_, _, heq⟩ := Value.isForm_one_iff.1 hform
      simp at heq
  have hsymbol : w.element level (.symbol Keyword.unquoteSplicing.name) =
      give (.symbol Keyword.unquoteSplicing.name) := expansion_atom nofun nofun
  rw [expansion_pair hwhole (splice?_eq_none hlevel _), expansion_pair hrest
    (splice?_eq_none hlevel _), hsymbol,
    expansion_nil]

/-- **Where a form `(unquote-splicing e)` counts as an unquotation.**  Above level one an
unquotation `(unquote e)` is kept, and its operand is expanded one level lower.  So is
`(unquote-splicing e)` as an element of a list.  As the operand of a nested quasiquotation or
unquotation and as the tail of a list it is expanded alone; then it is a list of a symbol and an
element, and the element is expanded at the level of the form. -/
theorem expansion_splicing (w : Scope) {level : Nat} (hlevel : 2 ≤ level) {e u x : Value}
    (hu : u.IsForm Keyword.unquote.name [e]) (hx : x.IsForm Keyword.unquoteSplicing.name [e]) :
    w.expansion level u = requoted .unquote (w.expansion (level - 1) e) ∧
    (∀ l rest, w.expansion level (.pair l x rest) =
      paired (requoted .unquoteSplicing (w.expansion (level - 1) e)) (w.expansion level rest)) ∧
    (∀ q : Value, q.IsForm Keyword.quasiquote.name [x] →
      w.expansion (level - 1) q = requoted .quasiquote (w.expansion level x)) ∧
    (∀ q : Value, q.IsForm Keyword.unquote.name [x] →
      w.expansion (level + 1) q = requoted .unquote (w.expansion level x)) ∧
    (∀ l car, w.expansion level (.pair l car x) = paired (w.element level car)
      (w.expansion level x)) ∧
    w.expansion level x =
      paired (give (.symbol Keyword.unquoteSplicing.name))
        (paired (w.element level e) (give .nil)) := by
  have hne : level ≠ 1 := by omega
  refine ⟨expansion_unquote hu hne, fun l rest => ?_, fun q hq => ?_, fun q hq => ?_,
    fun l car => ?_,
    expansion_splicing_alone hne hx⟩
  · rw [expansion_pair (Value.not_isQuotationForm_of_element hx) (splice?_eq_none hne x),
      element_of_isForm hx]
  · rw [expansion_quasiquote hq, Nat.sub_add_cancel (by omega)]
  · rw [expansion_unquote hq (by omega), Nat.add_sub_cancel]
  · rw [expansion_pair (Value.not_isQuotationForm_of_tail hx) (splice?_eq_none hne car)]

/-- In a list, the operand of `,@,#t` is expanded at level one, and so `#t` is evaluated; alone it
is expanded at level two. -/
theorem expansion_splicing_element :
    let w : Scope := ⟨.unbounded, 0, Store.global⟩
    let e := Value.list 1 [.symbol "unquote", .boolean true] .nil
    let x := Value.list 2 [.symbol "unquote-splicing", e] .nil
    w.expansion 2 (.pair ⟨3, 0⟩ x .nil) =
      paired (requoted .unquoteSplicing (w.evaluation (.boolean true))) (give .nil) ∧
    w.expansion 2 x = paired (give (.symbol "unquote-splicing"))
      (paired (w.element 2 e) (give .nil)) := by
  intro w e x
  have he : e.IsForm Keyword.unquote.name [.boolean true] := ⟨_, _, rfl, rfl⟩
  have hx : x.IsForm Keyword.unquoteSplicing.name [e] := ⟨_, _, rfl, rfl⟩
  have hu : (Value.list 4 [.symbol "unquote", e] .nil).IsForm Keyword.unquote.name [e] :=
    ⟨_, _, rfl, rfl⟩
  obtain ⟨-, helement, -, -, -, halone⟩ := expansion_splicing w (le_refl 2) hu hx
  exact ⟨by rw [helement, expansion_nil, expansion_unquote_one he], halone⟩

/-- Alone, `,@,#t` does not expand to the form of `#t`, not even but for labels. -/
theorem not_agree_splicing_alone :
    let w : Scope := ⟨.unbounded, 0, Store.global⟩
    let e := Value.list 1 [.symbol "unquote", .boolean true] .nil
    let x := Value.list 2 [.symbol "unquote-splicing", e] .nil
    ¬ Agree Eq (w.expansion 2 x) (requoted .unquoteSplicing (w.expansion 1 e)) := by
  intro w e x hagree
  have he : e.IsForm Keyword.unquote.name [.boolean true] := ⟨_, _, rfl, rfl⟩
  have hx : x.IsForm Keyword.unquoteSplicing.name [e] := ⟨_, _, rfl, rfl⟩
  have htrue : w.evaluation (.boolean true) = give (.boolean true) :=
    evaluation_constant rfl nofun nofun nofun
  have hkept : w.element 2 e = requoted .unquote (give (.boolean true)) := by
    have hoperand : w.expansion 1 (.boolean true) = give (.boolean true) :=
      expansion_atom nofun nofun
    rw [element_of_isForm_unquote he, expansion_unquote he (by decide), hoperand]
  rw [expansion_splicing_alone (by decide) hx, hkept, expansion_unquote_one he, htrue] at hagree
  simp only [paired, requoted, give_andThen, fresh_andThen] at hagree
  obtain ⟨o, s, ⟨rfl, rfl⟩, halike, -⟩ := (hagree (Store.initial false)).2 _ _ ⟨rfl, rfl⟩
  simp [Outcome.Alike, Value.list, Value.listFrom, Datum.unlabelled] at halike

end Scope

/-! ### The items of vectors -/

/-- The last two items look like a quotation. -/
def Value.EndInQuotation (items : List Value) : Prop :=
  ∃ (front : List Value) (k : Keyword) (e : Value),
    items = front ++ [.symbol k.name, e] ∧ (k = .unquote ∨ k = .quasiquote)

namespace Value

theorem eq_of_isQuotationForm_listFrom {stamp index : Nat} {items : List Value}
    (h : IsQuotationForm (listFrom stamp index items .nil)) :
    ∃ (k : Keyword) (e : Value), items = [.symbol k.name, e] ∧
      (k = .unquote ∨ k = .quasiquote) := by
  have hitems {head : String} {y : Value}
      (hform : (listFrom stamp index items .nil).IsForm head [y]) :
      items = [.symbol head, y] := by
    have hspine := spine_listFrom stamp index items .nil
    obtain ⟨l, l', heq⟩ := isForm_one_iff.1 hform
    rw [heq] at hspine
    simpa using (congrArg Prod.fst hspine).symm
  obtain ⟨y, hform | hform⟩ := h
  · exact ⟨.unquote, y, hitems hform, Or.inl rfl⟩
  · exact ⟨.quasiquote, y, hitems hform, Or.inr rfl⟩

/-- The list of items, up to where its last two items look like a quotation. -/
theorem listing_listFrom (stamp index : Nat) (front rest : List Value)
    (h : ∀ pre (k : Keyword) e, front ++ rest = pre ++ [.symbol k.name, e] →
      (k = .unquote ∨ k = .quasiquote) →
      front.length ≤ pre.length) :
    Listing front (listFrom stamp (index + front.length) rest .nil)
      (listFrom stamp index (front ++ rest) .nil) := by
  induction front generalizing index with
  | nil => exact .nil _
  | cons x front ih =>
    have hrest : Listing front (listFrom stamp (index + 1 + front.length) rest .nil)
        (listFrom stamp (index + 1) (front ++ rest) .nil) := by
      refine ih (index + 1) fun pre k e heq hk => ?_
      exact Nat.le_of_succ_le_succ (h (x :: pre) k e (congrArg (x :: ·) heq) hk)
    rw [List.length_cons, Nat.add_comm front.length, ← Nat.add_assoc]
    refine .cons (fun hform => ?_) hrest
    have hwhole : IsQuotationForm (listFrom stamp index (x :: (front ++ rest)) .nil) := hform
    obtain ⟨k, e, heq, hk⟩ := eq_of_isQuotationForm_listFrom hwhole
    exact Nat.not_succ_le_zero _ (h [] k e heq hk)

end Value

namespace Effect

/-- The vector of the items of pieces. -/
def collected (ps : List Piece) : Effect :=
  match Prelude.allElements (ps.map Piece.list) with
  | .ok items => fresh fun stamp => give (.vector ⟨stamp, 0⟩ items)
  | .error e => fail (spliceError e)

/-- The list of the items of pieces and their vector. -/
theorem agree_gathered (ps : List Piece) :
    Agree Eq ((assembled ps .nil).andThen gathered) (collected ps) := by
  refine agree_of_comesTo fun s => ?_
  have hassembled := comesTo_assembled ps .nil s
  unfold collected
  unfold Assembles at hassembled
  cases hall : Prelude.allElements (ps.map Piece.list) with
  | ok items =>
    simp only [hall] at hassembled
    let P (o : Outcome) : Prop := ∃ l, o = .value (.vector l items)
    have hgathered : ((assembled ps .nil).andThen gathered).ComesTo s P := by
      refine hassembled.andThen_value fun v s hspine => ?_
      have hitems : v.elements? = some items := by
        rw [Datum.elements?, hspine, Datum.spine_nil, List.append_nil]
        exact if_pos rfl
      rw [gathered, hitems]
      exact ComesTo.fresh (comesTo_give ⟨_, rfl⟩ _)
    refine ⟨P, P, hgathered, ComesTo.fresh (comesTo_give ⟨_, rfl⟩ _), ?_⟩
    rintro _ _ ⟨l, rfl⟩ ⟨l', rfl⟩
    rfl
  | error e =>
    simp only [hall] at hassembled
    let P (o : Outcome) : Prop := o = .error (spliceError e)
    have hgathered : ((assembled ps .nil).andThen gathered).ComesTo s P :=
      hassembled.andThen_error gathered
    refine ⟨P, P, hgathered, comesTo_fail (P := P) rfl s, ?_⟩
    rintro _ _ rfl rfl
    rfl

end Effect

namespace Scope

open Effect

variable {w : Scope} {level : Nat}

theorem expansion_eq_of_isForm {x x' e : Value} {k : Keyword} (hk : k = .unquote ∨ k = .quasiquote)
    (hx : x.IsForm k.name [e]) (hx' : x'.IsForm k.name [e]) :
    w.expansion level x = w.expansion level x' := by
  rcases hk with rfl | rfl
  · by_cases hlevel : level = 1
    · subst hlevel
      rw [expansion_unquote_one hx, expansion_unquote_one hx']
    · rw [expansion_unquote hx hlevel, expansion_unquote hx' hlevel]
  · rw [expansion_quasiquote hx, expansion_quasiquote hx']

/-- Two last items that look like a quotation are expanded as the tail of the list of the items
before. -/
theorem expansion_vector_quotation (w : Scope) (level : Nat) (l : Label) (front : List Value)
    {form e : Value} {k : Keyword} (hk : k = .unquote ∨ k = .quasiquote)
    (hform : form.IsForm k.name [e]) :
    w.expansion level (.vector l (front ++ [.symbol k.name, e])) =
      fresh fun _ =>
        (w.pieces level front (w.expansion level form) assembled).andThen gathered := by
  rw [expansion_vector]
  refine congrArg fresh (funext fun stamp => congrArg (andThen · gathered) ?_)
  have hlisting :=
    Value.listing_listFrom stamp 0 front [.symbol k.name, e] fun pre k' e' heq _ => by
      have hlength := congrArg List.length heq
      simp only [List.length_append, List.length_cons, List.length_nil] at hlength
      omega
  rw [Value.list, expansion_listing hlisting]
  exact congrArg (w.pieces level front · assembled)
    (expansion_eq_of_isForm hk ⟨_, _, rfl, rfl⟩ hform)

/-- **The items of a vector.**  A vector whose last two items do not look like a quotation expands
to the vector of what its items expand to, one after the other, where the elements of spliced lists
are items.  If the last two items are the keyword of a quotation and its operand, they are expanded
as that quotation, the result is the tail of a list, and there is a vector only if that is a proper
list. -/
theorem expansion_items (w : Scope) (level : Nat) (l : Label) (items : List Value) :
    (¬ Value.EndInQuotation items → Agree Eq (w.expansion level (.vector l items))
      (fresh fun _ => w.pieces level items (give .nil) fun ps _ => collected ps)) ∧
    ∀ front (k : Keyword) e, items = front ++ [.symbol k.name, e] →
      (k = .unquote ∨ k = .quasiquote) →
      ∀ form : Value, form.IsForm k.name [e] → w.expansion level (.vector l items) =
        fresh fun _ =>
          (w.pieces level front (w.expansion level form) assembled).andThen gathered := by
  constructor
  · intro hitems
    rw [expansion_vector]
    refine Effect.Agree.fresh fun stamp => ?_
    have hlisting : Value.Listing items .nil (Value.list stamp items .nil) := by
      have hwhole := Value.listing_listFrom stamp 0 items []
        fun pre k e heq hk => absurd ⟨pre, k, e, (List.append_nil items).symm.trans heq, hk⟩ hitems
      rwa [List.append_nil] at hwhole
    rw [expansion_listing hlisting, expansion_nil, pieces_andThen, pieces_give]
    exact Agree.pieces (fun _ => rfl) items _ fun ps _ => agree_gathered ps
  · rintro front k e rfl hk form hform
    exact expansion_vector_quotation w level l front hk hform

/-- In `#(unquote #t ,#t)` the first two items are a symbol and an item like any other. -/
theorem expansion_items_first :
    let w : Scope := ⟨.unbounded, 0, Store.global⟩
    let items : List Value :=
      [.symbol "unquote", .boolean true, Value.list 0 [.symbol "unquote", .boolean true] .nil]
    ¬ Value.EndInQuotation items ∧ Agree Eq (w.expansion 1 (.vector ⟨1, 0⟩ items))
      (fresh fun _ => w.pieces 1 items (give .nil) fun ps _ => collected ps) := by
  intro w items
  have hitems : ¬ Value.EndInQuotation items := by
    rintro ⟨front, k, e, heq, -⟩
    have hfront : front = [.symbol "unquote"] := by
      simpa [items] using (congrArg List.dropLast (congrArg List.dropLast heq)).symm
    simp [items, hfront] at heq
  exact ⟨hitems, (expansion_items w 1 ⟨1, 0⟩ items).1 hitems⟩

/-- The last two items of `#(a unquote #t)` are taken for an unquotation, and the expansion
fails. -/
theorem expansion_vector_unquote :
    let w : Scope := ⟨.unbounded, 0, Store.global⟩
    w.expansion 1 (.vector ⟨1, 0⟩ [.symbol "a", .symbol "unquote", .boolean true]) =
      fresh fun _ => fresh fun _ => fail (.notList "(a . #t)") := by
  intro w
  have hform : (Value.list 0 [.symbol "unquote", .boolean true] .nil).IsForm Keyword.unquote.name
      [.boolean true] := ⟨_, _, rfl, rfl⟩
  have hsplice : Config.splice? 1 (.symbol "a") = none := rfl
  have ha : w.element 1 (.symbol "a") = give (.symbol "a") := expansion_atom (w := w) nofun nofun
  have hvector := expansion_vector_quotation w 1 ⟨1, 0⟩ [.symbol "a"] (Or.inl rfl) hform
  have htrue : w.evaluation (.boolean true) = give (.boolean true) :=
    evaluation_constant rfl nofun nofun nofun
  rw [expansion_unquote_one hform, htrue] at hvector
  refine hvector.trans (congrArg fresh (funext fun _ => ?_))
  simp only [pieces, hsplice, ha, give_andThen, fresh_andThen, assembled]
  exact congrArg fresh (funext fun stamp => rfl)

end Scope

end Scheme
