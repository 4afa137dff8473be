import Cuesheet.Proofs.Scope

/-!
# Scopes inside scopes

A block, a loop and the element of a stagger have a copy of the scope they stand in, and a
declaration changes only the copy that it is made in. `Scope.Nest` is such a copy with the scopes
around it, and `Nest.run` goes from one to the next: by the steps of a scope, and back out of the
innermost copy.

The first binding of a name stays (`Constants.get?_bind`). So a declaration replaces an earlier one
only because its name is taken out before it is put in, and taken out of both stores, as the earlier
declaration may have been of the other kind. What comes of this is said once, in `get?_declare` and
`isRuntimeLocal_declare`.

A binding keeps its name and the type of its value, although the one is the key that it stands under
and the other can be read off the value. That they agree is kept by binding and removing
(`Constants.Made.keyed`), and a scope does nothing else with its constants. With this, every step
keeps a scope in order (`Scope.Consistent`), and so all scopes of a nest are.
-/

set_option autoImplicit false

namespace Cuesheet

/-! ## Keys and types -/

namespace Constants

/-- Constants that are made from none by binding names and removing them. -/
inductive Made : Constants → Prop
  | empty : Made .empty
  | bind {constants : Constants} (h : Made constants) (d : Declaration) (value : Json) :
      Made (constants.bind d value)
  | remove {constants : Constants} (h : Made constants) (name : String) :
      Made (constants.remove name)

/-- Each binding stands under its own name, and has the type of its value. -/
structure Keyed (constants : Constants) : Prop where
  distinct : (Dict.keys constants.entries).Nodup
  named : ∀ key b, (key, b) ∈ constants.entries → b.name = key
  typed : ∀ b ∈ constants.bindings, b.type = b.value.kind

theorem mem_bindings {constants : Constants} {b : Binding} :
    b ∈ constants.bindings ↔ ∃ key, (key, b) ∈ constants.entries := by
  unfold bindings Dict.values
  simp

/-- Binding a name that is free adds one entry, and all that is kept in it comes from the
declaration. -/
theorem Keyed.bind {constants : Constants} (h : constants.Keyed) (d : Declaration) (value : Json) :
    (constants.bind d value).Keyed := by
  unfold Constants.bind
  split
  · exact h
  · rename_i hfree
    have hnew : d.name ∉ Dict.keys constants.entries := fun hmem =>
      hfree (Dict.isSome_get?_iff.mpr hmem)
    refine ⟨?_, ?_, ?_⟩
    · -- The new name is not among the old ones.
      rw [Dict.keys, List.map_append, List.nodup_append]
      refine ⟨h.distinct, List.nodup_singleton _, ?_⟩
      intro key hkey other hother heq
      have hname : key = d.name := heq.trans (List.mem_singleton.mp hother)
      exact hnew (hname ▸ hkey)
    · intro key b hb
      rcases List.mem_append.mp hb with hb | hb
      · exact h.named key b hb
      · cases List.mem_singleton.mp hb
        rfl
    · intro b hb
      obtain ⟨key, hb⟩ := mem_bindings.mp hb
      rcases List.mem_append.mp hb with hb | hb
      · exact h.typed b (mem_bindings.mpr ⟨key, hb⟩)
      · cases List.mem_singleton.mp hb
        rfl

theorem Keyed.remove {constants : Constants} (h : constants.Keyed) (name : String) :
    (constants.remove name).Keyed := by
  have hold : ∀ {entry}, entry ∈ (constants.remove name).entries → entry ∈ constants.entries :=
    fun hentry => (List.mem_filter.mp hentry).1
  refine ⟨?_, fun key b hb => h.named key b (hold hb), ?_⟩
  · exact h.distinct.sublist (List.filter_sublist.map _)
  · intro b hb
    obtain ⟨key, hb⟩ := mem_bindings.mp hb
    exact h.typed b (mem_bindings.mpr ⟨key, hold hb⟩)

theorem Made.keyed {constants : Constants} (h : constants.Made) : constants.Keyed := by
  induction h with
  | empty => exact ⟨.nil, nofun, nofun⟩
  | bind _ d value ih => exact ih.bind d value
  | remove _ name ih => exact ih.remove name

/-- A name finds the binding of that name, and every binding is found so. -/
theorem Keyed.get?_eq_some_iff {constants : Constants} (h : constants.Keyed) {name : String}
    {b : Binding} : constants.get? name = some b ↔ b ∈ constants.bindings ∧ b.name = name := by
  constructor
  · intro hb
    have hmem := Dict.mem_of_get? hb
    exact ⟨mem_bindings.mpr ⟨name, hmem⟩, h.named name b hmem⟩
  · rintro ⟨hb, rfl⟩
    obtain ⟨key, hmem⟩ := mem_bindings.mp hb
    rw [h.named key b hmem]
    exact Dict.get?_of_mem h.distinct hmem

/-- The constants of a program are made by binding alone. Nothing is ever removed from them, unlike
from those of a block. -/
theorem made_ofDeclarations (declarations : List Declaration) :
    (ofDeclarations declarations).Made := by
  have hfold : ∀ (ds : List Declaration) {constants : Constants}, constants.Made →
      (ds.foldl (fun constants d => constants.tryBind d constants.constant?) constants).Made := by
    intro ds
    induction ds with
    | nil => exact id
    | cons d ds ih =>
      intro constants h
      apply ih
      show (constants.tryBind d constants.constant?).Made
      unfold tryBind
      split
      · exact h.bind d _
      · exact h
  exact hfold declarations .empty

end Constants

namespace Scope

/-! ## One declaration -/

theorem contains_declare (scope : Scope) (d : Declaration) (name : String) :
    (scope.declare d).locals.contains name =
      if name = d.name then (scope.fold? d.value).isSome else scope.locals.contains name := by
  rw [Constants.contains, get?_declare]
  split
  · rw [binding?, Option.isSome_map]
  · rfl

/-- What a declaration makes of the scope before it. -/
structure Declared (before : Scope) (d : Declaration) (after : Scope) : Prop where
  /-- The name is folded or set at run time, and not both. -/
  one : after.locals.contains d.name = !after.isRuntimeLocal d.name
  /-- The scope before decides which of the two it is. -/
  folded : after.locals.contains d.name = (before.fold? d.value).isSome
  /-- What it folds to takes the place of all that the name was here. -/
  replaced : ∀ value, before.fold? d.value = some value →
    after.locals.get? d.name = some ⟨d.name, value, value.kind, d.location⟩
  others : ∀ name, name ≠ d.name →
    after.locals.get? name = before.locals.get? name ∧
      after.isRuntimeLocal name = before.isRuntimeLocal name ∧
      after.constant? name = before.constant? name
  /-- Nothing but the declared names changes. -/
  frame : after = { before with locals := after.locals, runtimeLocals := after.runtimeLocals }

theorem constant?_declare_of_ne (scope : Scope) {d : Declaration} {name : String}
    (h : name ≠ d.name) : (scope.declare d).constant? name = scope.constant? name := by
  have hlocal : (scope.declare d).locals.constant? name = scope.locals.constant? name := by
    rw [Constants.constant?, get?_declare, if_neg h, Constants.constant?]
  have hruntime : (scope.declare d).isRuntimeLocal name = scope.isRuntimeLocal name := by
    rw [isRuntimeLocal_declare, if_neg h]
  rw [constant?, loopItem?, loops_declare, hruntime, hlocal, globals_declare]
  rfl

theorem declared_declare (scope : Scope) (d : Declaration) :
    Declared scope d (scope.declare d) where
  one := by
    rw [contains_declare, isRuntimeLocal_declare, if_pos rfl, if_pos rfl, Option.not_isNone]
  folded := by rw [contains_declare, if_pos rfl]
  replaced := by
    intro value hvalue
    rw [get?_declare, if_pos rfl, binding?, hvalue]
    rfl
  others := by
    intro name hname
    refine ⟨?_, ?_, constant?_declare_of_ne scope hname⟩
    · rw [get?_declare, if_neg hname]
    · rw [isRuntimeLocal_declare, if_neg hname]
  frame := by
    unfold declare
    split <;> rfl

/-! ## Scopes in order -/

/-- A binding has its name, its value and the type of that value from a declaration on the path, the
last one of its name. -/
def Recorded (start : Scope) (path : List Step) (b : Binding) : Prop :=
  ∃ before d behind value,
    path = before ++ .declare d :: behind ∧ (∀ step ∈ behind, ¬ step.Declares d.name) ∧
      (start.follow before).fold? d.value = some value ∧
      b = ⟨d.name, value, value.kind, d.location⟩

/-- Steps that do not declare the name leave its history as it is. -/
theorem Recorded.behind {start : Scope} {path : List Step} {step : Step} {b : Binding}
    (h : Recorded start path b) (hstep : ¬ step.Declares b.name) :
    Recorded start (path ++ [step]) b := by
  obtain ⟨before, d, behind, value, rfl, hlast, hvalue, rfl⟩ := h
  refine ⟨before, d, behind ++ [step], value, by simp, ?_, hvalue, rfl⟩
  rw [List.forall_mem_append]
  exact ⟨hlast, by simpa using hstep⟩

/-- The scope that a path leads to from `start` is in order. -/
structure Consistent (start : Scope) (path : List Step) (scope : Scope) : Prop where
  reached : scope = start.follow path
  /-- No name is folded and set at run time as well. -/
  disjoint : ∀ name, ¬ (scope.locals.contains name = true ∧ scope.isRuntimeLocal name = true)
  /-- Nothing but binding and removing has made the folded names. -/
  made : scope.locals.Made
  keyed : scope.locals.Keyed
  /-- Under each name stands the binding of that name, and all bindings can be found so. -/
  found : ∀ name b, scope.locals.get? name = some b ↔ b ∈ scope.locals.bindings ∧ b.name = name
  recorded : ∀ b ∈ scope.locals.bindings, Recorded start path b
  /-- The program's constants are those at the start, and they are in order as well. -/
  constants : scope.globals = start.globals ∧
    (start.globals.constants.Made → scope.globals.constants.Keyed)

namespace Consistent

variable {globals : Globals} {start scope : Scope} {path : List Step}

theorem of_opens (h : Opens globals start) : Consistent start [] start := by
  have hempty : start.locals = .empty := by cases h <;> rfl
  have hmade : start.locals.Made := by
    rw [hempty]
    exact .empty
  refine ⟨rfl, ?_, hmade, hmade.keyed, fun _ _ => hmade.keyed.get?_eq_some_iff, ?_,
    rfl, Constants.Made.keyed⟩
  · intro name h
    rw [hempty] at h
    exact absurd h.1 (by simp [Constants.contains, Constants.get?, Constants.empty])
  · rw [hempty]
    intro b hb
    cases hb

theorem disjoint_declare (h : Consistent start path scope) (d : Declaration) (name : String) :
    ¬ ((scope.declare d).locals.contains name = true ∧
      (scope.declare d).isRuntimeLocal name = true) := by
  rw [contains_declare, isRuntimeLocal_declare]
  split
  · cases scope.fold? d.value <;> simp
  · exact h.disjoint name

theorem made_declare (h : Consistent start path scope) (d : Declaration) :
    (scope.declare d).locals.Made := by
  unfold declare
  split
  · exact (h.made.remove d.name).bind d _
  · exact h.made.remove d.name

theorem recorded_declare (h : Consistent start path scope) (d : Declaration) :
    ∀ b ∈ (scope.declare d).locals.bindings, Recorded start (path ++ [.declare d]) b := by
  intro b hb
  have hfound : (scope.declare d).locals.get? b.name = some b :=
    (h.made_declare d).keyed.get?_eq_some_iff.mpr ⟨hb, rfl⟩
  rw [get?_declare] at hfound
  by_cases hname : b.name = d.name
  · rw [if_pos hname] at hfound
    obtain ⟨value, hvalue, rfl⟩ := Option.map_eq_some_iff.mp hfound
    rw [h.reached] at hvalue
    exact ⟨path, d, [], value, rfl, by simp, hvalue, rfl⟩
  · -- A binding of another name was there before, with the history it has now.
    rw [if_neg hname] at hfound
    have hold := ((h.found b.name b).mp hfound).1
    exact (h.recorded b hold).behind fun heq => hname heq.symm

/-- Every step keeps a scope in order. -/
theorem take (h : Consistent start path scope) (step : Step) :
    Consistent start (path ++ [step]) (scope.take step) := by
  have hreached : scope.take step = start.follow (path ++ [step]) := by
    rw [follow_append, ← h.reached]
    rfl
  have hglobals : (scope.take step).globals = start.globals := by
    rw [globals_take, h.constants.1]
  have hconstants : (scope.take step).globals = start.globals ∧
      (start.globals.constants.Made → (scope.take step).globals.constants.Keyed) := by
    refine ⟨hglobals, fun hmade => ?_⟩
    rw [hglobals]
    exact hmade.keyed
  cases step with
  | enterBlock | enterLoop _ | withStaggerItem _ =>
    -- A copy has all declared names of the scope it is made from.
    exact ⟨hreached, h.disjoint, h.made, h.keyed, h.found,
      fun b hb => (h.recorded b hb).behind id, hconstants⟩
  | declare d =>
    have hmade := h.made_declare d
    exact ⟨hreached, h.disjoint_declare d, hmade, hmade.keyed,
      fun _ _ => hmade.keyed.get?_eq_some_iff, h.recorded_declare d, hconstants⟩

end Consistent

/-! ## Copies and the scopes around them -/

/-- The step leads into a copy. -/
def Step.Enters : Step → Prop
  | declare _ => False
  | _ => True

/-- A scope with the scopes that it stands in, innermost first. -/
structure Nest where
  scope : Scope
  around : List Scope

/-- A way to come from a nest to the next: a step of its scope, or back out of it. -/
inductive Move where
  | step (step : Step)
  | leave

namespace Nest

/-- A scope that stands in no other. -/
def outermost (scope : Scope) : Nest := ⟨scope, []⟩

/-- All scopes, innermost first. -/
def scopes (nest : Nest) : List Scope := nest.scope :: nest.around

/-- Goes on in a copy, which stands in the scope that it was made from. -/
def enter (nest : Nest) (copy : Scope) : Nest := ⟨copy, nest.scopes⟩

def take (nest : Nest) : Step → Nest
  | .enterBlock => nest.enter nest.scope.enterBlock
  | .enterLoop item => nest.enter (nest.scope.enterLoop item)
  | .withStaggerItem item => nest.enter (nest.scope.withStaggerItem item)
  | .declare d => { nest with scope := nest.scope.declare d }

/-- Drops the innermost scope. The outermost one cannot be left. -/
def leave : Nest → Nest
  | ⟨scope, []⟩ => ⟨scope, []⟩
  | ⟨_, outer :: others⟩ => ⟨outer, others⟩

def move (nest : Nest) : Move → Nest
  | .step step => nest.take step
  | .leave => nest.leave

/-- The nest behind a list of moves. -/
def run (nest : Nest) (moves : List Move) : Nest := moves.foldl move nest

theorem run_append (nest : Nest) (moves more : List Move) :
    nest.run (moves ++ more) = (nest.run moves).run more :=
  List.foldl_append

theorem scope_take (nest : Nest) (step : Step) : (nest.take step).scope = nest.scope.take step := by
  cases step <;> rfl

/-- Steps lead to the same scope with and without those around it. -/
theorem scope_run_steps (nest : Nest) (steps : List Step) :
    (nest.run (steps.map .step)).scope = nest.scope.follow steps := by
  induction steps generalizing nest with
  | nil => rfl
  | cons step steps ih =>
    rw [follow_cons, ← scope_take]
    exact ih (nest.take step)

/-- After a move there is at most one new scope: a step has led to it from the innermost one. -/
theorem mem_scopes_move {nest : Nest} {move : Move} {scope : Scope}
    (h : scope ∈ (nest.move move).scopes) :
    scope ∈ nest.scopes ∨ ∃ step, scope = nest.scope.take step := by
  obtain ⟨inner, around⟩ := nest
  cases move with
  | leave =>
    cases around with
    | nil => exact .inl h
    | cons outer others => exact .inl (List.mem_cons_of_mem _ h)
  | step step =>
    rcases List.mem_cons.mp h with rfl | h
    · exact .inr ⟨step, scope_take _ step⟩
    · cases step with
      | enterBlock | enterLoop _ | withStaggerItem _ => exact .inl h
      | declare d => exact .inl (List.mem_cons_of_mem _ h)

/-- All scopes of a nest are in order, with one path to each of them. -/
def Ordered (start : Scope) (nest : Nest) : Prop :=
  ∀ scope ∈ nest.scopes, ∃ path, Consistent start path scope

theorem Ordered.move {start : Scope} {nest : Nest} (h : Ordered start nest) (move : Move) :
    Ordered start (nest.move move) := by
  intro scope hscope
  rcases mem_scopes_move hscope with hold | ⟨step, rfl⟩
  · exact h scope hold
  · obtain ⟨path, hpath⟩ := h nest.scope (List.mem_cons_self ..)
    exact ⟨path ++ [step], hpath.take step⟩

theorem Ordered.run {start : Scope} {nest : Nest} (h : Ordered start nest) (moves : List Move) :
    Ordered start (nest.run moves) := by
  induction moves generalizing nest with
  | nil => exact h
  | cons move moves ih => exact ih (h.move move)

/-! ## Out of a copy -/

/-- Moves that leave every scope they enter. On the way, `ds` are declared outside of those scopes.
-/
inductive Closed : List Declaration → List Move → Prop
  | nil : Closed [] []
  | declare (d : Declaration) {ds : List Declaration} {rest : List Move} (h : Closed ds rest) :
      Closed (d :: ds) (.step (.declare d) :: rest)
  | copy {step : Step} (hstep : step.Enters) {inside ds : List Declaration} {inner rest : List Move}
      (hinner : Closed inside inner) (h : Closed ds rest) :
      Closed ds (.step step :: inner ++ .leave :: rest)

theorem around_take {nest : Nest} {step : Step} (h : step.Enters) :
    (nest.take step).around = nest.scopes := by
  cases step with
  | enterBlock | enterLoop _ | withStaggerItem _ => rfl
  | declare d => exact h.elim

/-- Of what is declared, only that outside of the copies is left. -/
theorem run_of_closed {ds : List Declaration} {moves : List Move} (h : Closed ds moves)
    (nest : Nest) : nest.run moves = ⟨ds.foldl Scope.declare nest.scope, nest.around⟩ := by
  induction h generalizing nest with
  | nil => rfl
  | declare d h ih => exact ih (nest.take (.declare d))
  | @copy step hstep inside ds inner rest hinner h ihinner ih =>
    -- Whatever the copy has become, it is dropped, and the scope it was made from comes next.
    have hback : ((nest.take step).run inner).leave = nest := by
      rw [ihinner, around_take hstep]
      rfl
    calc nest.run (.step step :: inner ++ .leave :: rest)
      _ = (((nest.take step).run inner).leave).run rest := run_append (nest.take step) inner _
      _ = ⟨ds.foldl Scope.declare nest.scope, nest.around⟩ := by rw [hback, ih]

/-- **Every scope that is reached is in order, and a declaration changes its own name in its own
scope.** In the scope of a nest and in all scopes around it, no name is folded and set at run time
as well, and each binding stands under its name, with the value of the last declaration of that name
and the type of this value. Steps lead to the scopes that they lead to without a nest. After a
declaration its name is folded or set at run time, as the scope before it decides, and whatever the
name was there before is gone. No other name has changed, and no scope around has. Copies that are
entered and left leave nothing behind. -/
theorem run_consistent {globals : Globals} {start : Scope} (hstart : Opens globals start)
    {moves : List Move} {nest : Nest} (hnest : (outermost start).run moves = nest) :
    (∀ scope ∈ nest.scopes, ∃ path, Consistent start path scope) ∧
    (∀ steps, (nest.run (steps.map .step)).scope = nest.scope.follow steps) ∧
    (∀ d, Declared nest.scope d (nest.take (.declare d)).scope ∧
      (nest.take (.declare d)).around = nest.around) ∧
    ∀ ds inside, Closed ds inside →
      nest.run inside = ⟨ds.foldl Scope.declare nest.scope, nest.around⟩ := by
  refine ⟨?_, nest.scope_run_steps, fun d => ⟨declared_declare nest.scope d, rfl⟩,
    fun ds inside h => run_of_closed h nest⟩
  have hordered : Ordered start (outermost start) := by
    intro scope hscope
    cases List.mem_singleton.mp hscope
    exact ⟨[], .of_opens hstart⟩
  rw [← hnest]
  exact hordered.run moves

end Nest

namespace Lamps

/-- `level` is twice what it is around. -/
def doubled : Declaration :=
  ⟨"level", .binary .mul (.variable "level" (.onLine 3)) (.number 2 (.onLine 3)) (.onLine 3),
    .onLine 3⟩

/-- `level` is what the action is called with. -/
def chosen : Declaration := ⟨"level", .parameter "wanted" (.onLine 5), .onLine 5⟩

def fixed : Declaration := ⟨"level", .number 5 (.onLine 7), .onLine 7⟩

/-- The scope of an action in a program with the constant `level`. -/
def start : Scope :=
  .action ⟨.ofDeclarations [⟨"level", .number 10 (.onLine 1), .onLine 1⟩], []⟩ ["wanted"] .named

/-- Into a loop, and there into a block and out of it. All three declare `level`. -/
def moves : List Move :=
  [.step (.declare doubled), .step (.enterLoop "lamp"), .step (.declare chosen), .step .enterBlock,
    .step (.declare fixed), .leave]

def nest : Nest := (Nest.outermost start).run moves

end Lamps

/-- In the loop `level` is set at run time, although the block in it has just folded it. A
declaration that folds puts an end to that, and the level outside of the loop is twice the constant
all the time. -/
theorem Nest.run_consistent_lamps :
    (∃ path, Consistent Lamps.start path Lamps.nest.scope) ∧
      Lamps.nest.scope.isRuntimeLocal "level" = true ∧
      Lamps.nest.scope.locals.contains "level" = false ∧
      Lamps.nest.scope.globals.constants.Keyed ∧
      Lamps.nest.around.map (·.constant? "level") = [some (.int 20)] ∧
      (Lamps.nest.take (.declare Lamps.fixed)).scope.locals.get? "level" =
        some ⟨"level", .int 5, .number, .onLine 7⟩ ∧
      (Lamps.nest.take (.declare Lamps.fixed)).scope.isRuntimeLocal "level" = false ∧
      (Lamps.nest.take (.declare Lamps.fixed)).around.map (·.constant? "level") = [some (.int 20)] ∧
      Lamps.nest.run [.step .enterBlock, .step (.declare Lamps.fixed), .leave] = Lamps.nest := by
  have hstart : Opens Lamps.start.globals Lamps.start := .action ["wanted"] .named
  have hnest : (outermost Lamps.start).run Lamps.moves = Lamps.nest := rfl
  obtain ⟨hordered, -, hdeclared, hclosed⟩ := run_consistent hstart hnest
  obtain ⟨hfixed, haround⟩ := hdeclared Lamps.fixed
  obtain ⟨path, hpath⟩ := hordered Lamps.nest.scope (List.mem_cons_self ..)
  have hruntime : Lamps.nest.scope.isRuntimeLocal "level" = true := by decide +kernel
  have hlevel : Lamps.nest.around.map (·.constant? "level") = [some (.int 20)] := by rfl
  have hvalue : Lamps.nest.scope.fold? Lamps.fixed.value = some (.int 5) := by rfl
  have hkeyed := hpath.constants.2 (Constants.made_ofDeclarations _)
  refine ⟨⟨path, hpath⟩, hruntime, ?_, hkeyed, hlevel, hfixed.replaced _ hvalue, ?_, ?_, ?_⟩
  · exact Bool.eq_false_iff.mpr fun h => hpath.disjoint _ ⟨h, hruntime⟩
  · have hone := hfixed.one
    rw [hfixed.folded, hvalue] at hone
    exact (Bool.not_eq_true' _).mp hone.symm
  · rw [haround]
    exact hlevel
  · have henters : Step.enterBlock.Enters := trivial
    exact hclosed [] _ (.copy henters (.declare Lamps.fixed .nil) .nil)

end Scope

end Cuesheet
