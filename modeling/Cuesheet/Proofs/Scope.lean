import Cuesheet.Lowering.Value
import Cuesheet.Proofs.Dict

/-!
# What `@name` means

A scope keeps three things that can bind a name: the items of the loops around a place, the folded
declarations, and those that are set at run time. Which of them a name means is looked up in a fixed
order. This file compares that order with the order in which the binders were met.

`Scope.Step` is one way to come from a scope to the next, and `Scope.follow` takes a list of steps,
so a scope that can be reached is `start.follow steps`. The declarations of a name, taken together,
are what the scope holds for it (`Scope.holding?`), and only the last of them counts. Loops do not
take part in this: the item of the innermost loop is asked for first, and those of outer loops are
not asked for at all. `Scope.Lexical` is the law that the most recent binder wins, whatever its
kind. It fails in exactly those two places.
-/

set_option autoImplicit false

namespace Cuesheet

/-! ## Declared names -/

namespace Constants

theorem get?_remove (constants : Constants) (name other : String) :
    (constants.remove name).get? other = if other = name then none else constants.get? other :=
  Dict.get?_filter_ne constants.entries name other

theorem isSome_constant? (constants : Constants) (name : String) :
    (constants.constant? name).isSome = constants.contains name := by
  rw [constant?, Option.isSome_map, contains]

/-- The first binding of a name stays. -/
theorem get?_bind (constants : Constants) (d : Declaration) (value : Json) (name : String) :
    (constants.bind d value).get? name =
      (constants.get? name).or
        (if name = d.name then some (.ofDeclaration d value) else none) := by
  unfold Constants.bind
  split
  · rename_i hbound
    split
    · rename_i hname
      rw [hname, Option.or_of_isSome hbound]
    · rw [Option.or_none]
  · rw [get?, Dict.get?_append, Dict.get?, Dict.get?_nil]
    simp only [eq_comm (a := d.name)]
    rfl

end Constants

namespace Scope

/-- The binding that a declaration makes, if it folds in the scope before it. -/
def binding? (scope : Scope) (d : Declaration) : Option Binding :=
  (scope.fold? d.value).map (.ofDeclaration d)

theorem get?_declare (scope : Scope) (d : Declaration) (name : String) :
    (scope.declare d).locals.get? name =
      if name = d.name then scope.binding? d else scope.locals.get? name := by
  cases hfold : scope.fold? d.value with
  | some value =>
    simp only [declare, binding?, hfold, Constants.get?_bind, Constants.get?_remove,
      Option.map_some]
    split <;> simp
  | none => simp only [declare, binding?, hfold, Constants.get?_remove, Option.map_none]

theorem isRuntimeLocal_declare (scope : Scope) (d : Declaration) (name : String) :
    (scope.declare d).isRuntimeLocal name =
      if name = d.name then (scope.fold? d.value).isNone else scope.isRuntimeLocal name := by
  by_cases hname : name = d.name <;> cases hfold : scope.fold? d.value <;>
    simp [declare, isRuntimeLocal, hfold, addName, hname]

/-- What the declarations of a name have left in a scope. -/
inductive Holding where
  | folded (value : Json)
  | runtime

/-- What a scope holds for a name that was declared. -/
def holding? (scope : Scope) (name : String) : Option Holding :=
  if scope.isRuntimeLocal name then some .runtime
  else (scope.locals.constant? name).map .folded

/-- What a declaration leaves for its name: the value it folds to in the scope before it, or a
variable that is set at run time. -/
def held (scope : Scope) (d : Declaration) : Holding :=
  match scope.fold? d.value with
  | some value => .folded value
  | none => .runtime

/-- A declaration replaces what is held for its name and leaves all other names alone. -/
theorem holding?_declare (scope : Scope) (d : Declaration) (name : String) :
    (scope.declare d).holding? name =
      if name = d.name then some (scope.held d) else scope.holding? name := by
  unfold holding? held
  rw [isRuntimeLocal_declare, Constants.constant?, get?_declare]
  by_cases h : name = d.name
  · rw [if_pos h, if_pos h, if_pos h, binding?]
    cases scope.fold? d.value <;> rfl
  · rw [if_neg h, if_neg h, if_neg h]
    rfl

@[simp] theorem loops_declare (scope : Scope) (d : Declaration) :
    (scope.declare d).loops = scope.loops := by
  unfold declare
  split <;> rfl

@[simp] theorem globals_declare (scope : Scope) (d : Declaration) :
    (scope.declare d).globals = scope.globals := by
  unfold declare
  split <;> rfl

/-- What `@name` means where no loop has a say in it: what is held for the name, or else the global
of that name. -/
def lowerDeclared (scope : Scope) (name : String) (location : Location) : Lowered Json :=
  match scope.holding? name with
  | some (.folded value) => .ok value
  | some .runtime => .ok (.string (DataPath.localVariable name))
  | none =>
    match scope.globals.constants.constant? name with
    | some value => .ok value
    | none =>
      if name ∈ scope.globals.runtime then .ok (.string (DataPath.globalVariable name))
      else .error ⟨.unknownVariable name (Text.suggest name scope.globalNames), location⟩

/-- The item of the innermost loop comes first, and no other loop is looked at. -/
theorem lower_variable (scope : Scope) (name : String) (location : Location) :
    Expr.lower scope (.variable name location) =
      if scope.loopItem? = some name then .ok (.string DataPath.loopItem)
      else scope.lowerDeclared name location := by
  rw [Expr.lower]
  by_cases hitem : scope.loopItem? = some name
  · simp [fold?, Expr.fold?, constant?, lowerVariable, hitem]
  · cases hruntime : scope.isRuntimeLocal name with
    | true =>
      simp [fold?, Expr.fold?, constant?, lowerVariable, lowerDeclared, holding?, hitem, hruntime]
    | false =>
      cases hlocal : scope.locals.constant? name <;>
        cases hglobal : scope.globals.constants.constant? name <;>
        simp [fold?, Expr.fold?, constant?, lowerVariable, lowerDeclared, holding?,
          isRuntimeGlobal, hitem, hruntime, hlocal, hglobal]

/-! ## Steps -/

/-- A way to come from a scope to the next. -/
inductive Step where
  | enterBlock
  | enterLoop (item : String)
  | withStaggerItem (item : Json)
  | declare (d : Declaration)

namespace Step

/-- The step declares the name. -/
def Declares (name : String) : Step → Prop
  | declare d => d.name = name
  | _ => False

/-- The step enters a loop. -/
def IsLoop : Step → Prop
  | enterLoop _ => True
  | _ => False

/-- The step binds the name: it declares it, or it enters a loop whose item has that name. -/
def Binds (name : String) : Step → Prop
  | declare d => d.name = name
  | enterLoop item => item = name
  | _ => False

end Step

/-- The scope behind a step. -/
def take (scope : Scope) : Step → Scope
  | .enterBlock => scope.enterBlock
  | .enterLoop item => scope.enterLoop item
  | .withStaggerItem item => scope.withStaggerItem item
  | .declare d => scope.declare d

/-- The scope behind a list of steps. -/
def follow (scope : Scope) (steps : List Step) : Scope := steps.foldl take scope

@[simp] theorem follow_nil (scope : Scope) : scope.follow [] = scope := rfl

@[simp] theorem follow_cons (scope : Scope) (step : Step) (steps : List Step) :
    scope.follow (step :: steps) = (scope.take step).follow steps := rfl

theorem follow_append (scope : Scope) (steps more : List Step) :
    scope.follow (steps ++ more) = (scope.follow steps).follow more :=
  List.foldl_append

@[simp] theorem globals_take (scope : Scope) (step : Step) :
    (scope.take step).globals = scope.globals := by
  cases step <;> simp [take, enterBlock, enterLoop, withStaggerItem]

/-- A step that does not declare a name leaves alone what is held for it. -/
theorem holding?_take {scope : Scope} {step : Step} {name : String} (h : ¬ step.Declares name) :
    (scope.take step).holding? name = scope.holding? name := by
  cases step with
  | declare d =>
    have hne : name ≠ d.name := fun heq => h heq.symm
    rw [take, holding?_declare, if_neg hne]
  | enterBlock | enterLoop _ | withStaggerItem _ => rfl

/-- A step that enters no loop leaves the loops alone. -/
theorem loops_take {scope : Scope} {step : Step} (h : ¬ step.IsLoop) :
    (scope.take step).loops = scope.loops := by
  cases step with
  | enterLoop item => exact absurd trivial h
  | declare d => exact loops_declare scope d
  | enterBlock | withStaggerItem _ => rfl

@[simp] theorem globals_follow (scope : Scope) (steps : List Step) :
    (scope.follow steps).globals = scope.globals := by
  induction steps generalizing scope with
  | nil => rfl
  | cons step steps ih => rw [follow_cons, ih, globals_take]

theorem holding?_follow {scope : Scope} {steps : List Step} {name : String}
    (h : ∀ step ∈ steps, ¬ step.Declares name) :
    (scope.follow steps).holding? name = scope.holding? name := by
  induction steps generalizing scope with
  | nil => rfl
  | cons step steps ih =>
    rw [List.forall_mem_cons] at h
    rw [follow_cons, ih h.2, holding?_take h.1]

theorem loops_follow {scope : Scope} {steps : List Step} (h : ∀ step ∈ steps, ¬ step.IsLoop) :
    (scope.follow steps).loops = scope.loops := by
  induction steps generalizing scope with
  | nil => rfl
  | cons step steps ih =>
    rw [List.forall_mem_cons] at h
    rw [follow_cons, ih h.2, loops_take h.1]

/-! ## The most recent binder -/

/-- The scopes that steps start from: those of an action, and of operations on a timeline. -/
inductive Opens (globals : Globals) : Scope → Prop
  | top : Opens globals (.top globals)
  | action (parameters : List String) (style : ArgumentStyle) :
      Opens globals (.action globals parameters style)

namespace Opens

variable {globals : Globals} {start : Scope}

theorem globals_eq (h : Opens globals start) : start.globals = globals := by
  cases h <;> rfl

theorem loops_eq (h : Opens globals start) : start.loops = [] := by
  cases h <;> rfl

theorem holding?_eq (h : Opens globals start) (name : String) : start.holding? name = none := by
  cases h <;> rfl

end Opens

/-- The last step that binds a name, with the steps before and behind it. -/
structure Recent (name : String) (steps before : List Step) (binder : Step) (behind : List Step) :
    Prop where
  split : steps = before ++ binder :: behind
  binds : binder.Binds name
  last : ∀ step ∈ behind, ¬ step.Binds name

/-- A name has at most one most recent binder. Two of them would each stand behind the other. -/
theorem Recent.unique {name : String} {steps before before' behind behind' : List Step}
    {binder binder' : Step} (h : Recent name steps before binder behind)
    (h' : Recent name steps before' binder' behind') :
    before = before' ∧ binder = binder' ∧ behind = behind' := by
  -- Of two splits at different places, the later binder would stand behind the earlier one.
  rcases List.append_eq_append_iff.mp (h.split.symm.trans h'.split) with
    ⟨between, hbefore, hrest⟩ | ⟨between, hbefore, hrest⟩
  · cases between with
    | nil =>
      cases hrest
      exact ⟨by simpa using hbefore.symm, rfl, rfl⟩
    | cons step between =>
      cases hrest
      exact absurd h'.binds (h.last binder' (by simp))
  · cases between with
    | nil =>
      cases hrest
      exact ⟨by simpa using hbefore, rfl, rfl⟩
    | cons step between =>
      cases hrest
      exact absurd h.binds (h'.last binder (by simp))

/-- The innermost of the loops that the steps enter has the name for its item. -/
def InnermostLoop (name : String) (steps : List Step) : Prop :=
  ∃ before behind, steps = before ++ .enterLoop name :: behind ∧ ∀ step ∈ behind, ¬ step.IsLoop

/-- A name has a meaning without any loops: it was declared on the way, or it is a global. -/
def Known (globals : Globals) (steps : List Step) (name : String) : Prop :=
  (∃ step ∈ steps, step.Declares name) ∨ (globals.constants.constant? name).isSome ∨
    name ∈ globals.runtime

/-- The most recent binder of a name is a loop, and the name has a meaning outside of it. -/
def LoopHides (globals : Globals) (steps : List Step) (name : String) : Prop :=
  ∃ before behind, Recent name steps before (.enterLoop name) behind ∧ Known globals before name

/-- The law of lexical scope for `@name` behind the given steps. If the most recent binder is a
loop, its item is meant, and it can be reached only if no other loop was entered since. If it is a
declaration, what that declaration folded to is meant, or the variable that it sets at run time. If
there is no binder, a global is meant. -/
structure Lexical (globals : Globals) (start : Scope) (steps : List Step) (name : String)
    (location : Location) : Prop where
  loop : ∀ before behind, Recent name steps before (.enterLoop name) behind →
    ((∀ step ∈ behind, ¬ step.IsLoop) →
      Expr.lower (start.follow steps) (.variable name location) =
        .ok (.string DataPath.loopItem)) ∧
    ((∃ step ∈ behind, step.IsLoop) →
      ∃ e, Expr.lower (start.follow steps) (.variable name location) = .error e)
  declaration : ∀ before d behind, Recent name steps before (.declare d) behind →
    Expr.lower (start.follow steps) (.variable name location) =
      match (start.follow before).fold? d.value with
      | some value => .ok value
      | none => .ok (.string (DataPath.localVariable name))
  global : (∀ step ∈ steps, ¬ step.Binds name) →
    (∀ value, globals.constants.constant? name = some value →
      Expr.lower (start.follow steps) (.variable name location) = .ok value) ∧
    (globals.constants.constant? name = none → name ∈ globals.runtime →
      Expr.lower (start.follow steps) (.variable name location) =
        .ok (.string (DataPath.globalVariable name))) ∧
    (globals.constants.constant? name = none → name ∉ globals.runtime →
      ∃ e, Expr.lower (start.follow steps) (.variable name location) = .error e)

theorem Step.Declares.binds {step : Step} {name : String} (h : step.Declares name) :
    step.Binds name := by
  cases step with
  | declare d => exact h
  | enterBlock | enterLoop _ | withStaggerItem _ => exact h.elim

/-- The item of the innermost loop is that of the last loop entered, or that of a loop around the
place where the steps began. -/
theorem innermostLoop_or_of_loopItem? {steps : List Step} {name : String} :
    ∀ {scope : Scope}, (scope.follow steps).loopItem? = some name →
      InnermostLoop name steps ∨ (∀ step ∈ steps, ¬ step.IsLoop) ∧ scope.loopItem? = some name := by
  induction steps with
  | nil => exact fun h => .inr ⟨by simp, h⟩
  | cons step steps ih =>
    intro scope h
    rcases ih h with ⟨before, behind, rfl, hbehind⟩ | ⟨hsteps, hitem⟩
    · exact .inl ⟨step :: before, behind, rfl, hbehind⟩
    · cases step with
      | enterLoop item =>
        have hname : item = name := Option.some.inj hitem
        exact .inl ⟨[], steps, by rw [hname]; rfl, hsteps⟩
      | enterBlock | withStaggerItem _ | declare _ =>
        rw [loopItem?, loops_take (by exact id)] at hitem
        exact .inr ⟨List.forall_mem_cons.mpr ⟨id, hsteps⟩, hitem⟩

theorem InnermostLoop.loopItem? {steps : List Step} {name : String} (h : InnermostLoop name steps)
    (scope : Scope) : (scope.follow steps).loopItem? = some name := by
  obtain ⟨before, behind, rfl, hbehind⟩ := h
  rw [follow_append, follow_cons, Scope.loopItem?, loops_follow hbehind]
  rfl

/-- What is held for a name behind its last declaration. What the name was before, and what other
names are, does not matter. -/
theorem holding?_declared (scope : Scope) (before : List Step) {behind : List Step}
    {d : Declaration} (h : ∀ step ∈ behind, ¬ step.Declares d.name) :
    (scope.follow (before ++ .declare d :: behind)).holding? d.name =
      some ((scope.follow before).held d) := by
  rw [follow_append, follow_cons, holding?_follow h, take, holding?_declare, if_pos rfl]

/-- A name that is not declared on the way means a global. -/
theorem lowerDeclared_follow_of_global {globals : Globals} {start : Scope}
    (hstart : Opens globals start) {steps : List Step} {name : String}
    (h : ∀ step ∈ steps, ¬ step.Declares name) (location : Location) :
    (∀ value, globals.constants.constant? name = some value →
      (start.follow steps).lowerDeclared name location = .ok value) ∧
    (globals.constants.constant? name = none → name ∈ globals.runtime →
      (start.follow steps).lowerDeclared name location =
        .ok (.string (DataPath.globalVariable name))) ∧
    (globals.constants.constant? name = none → name ∉ globals.runtime →
      ∃ e, (start.follow steps).lowerDeclared name location = .error e) := by
  unfold lowerDeclared
  rw [holding?_follow h, hstart.holding?_eq, globals_follow, hstart.globals_eq]
  refine ⟨?_, ?_, ?_⟩
  · intro value hvalue
    simp [hvalue]
  · intro hnone hruntime
    simp [hnone, hruntime]
  · intro hnone hruntime
    exact ⟨_, by simp [hnone, hruntime]; rfl⟩

/-- **The innermost loop comes first, and the most recent binder after it.** The item of the
innermost loop is meant by its name everywhere in the loop's body, also behind a declaration of that
name. Any other name means its most recent binder, and never one that is hidden by it. Nothing is
said of the one case that is left: an outer loop is the most recent binder of a name that also has a
meaning outside of that loop. -/
theorem lower_variable_lexical {globals : Globals} {start : Scope} (hstart : Opens globals start)
    (steps : List Step) (name : String) (location : Location) :
    (InnermostLoop name steps →
      Expr.lower (start.follow steps) (.variable name location) =
        .ok (.string DataPath.loopItem)) ∧
    (¬ InnermostLoop name steps → ¬ LoopHides globals steps name →
      Lexical globals start steps name location) := by
  constructor
  · intro h
    rw [lower_variable, if_pos (h.loopItem? start)]
  · intro hinnermost hhides
    have hitem : (start.follow steps).loopItem? ≠ some name := by
      intro hitem
      rcases innermostLoop_or_of_loopItem? hitem with h | ⟨-, h⟩
      · exact hinnermost h
      · rw [loopItem?, hstart.loops_eq] at h
        cases h
    have hlower := lower_variable (start.follow steps) name location
    rw [if_neg hitem] at hlower
    refine ⟨?_, ?_, ?_⟩
    · intro before behind hrecent
      refine ⟨fun h => absurd ⟨before, behind, hrecent.split, h⟩ hinnermost, fun _ => ?_⟩
      have hunknown : ¬ Known globals before name := fun h => hhides ⟨before, behind, hrecent, h⟩
      simp only [Known, not_or, not_exists, not_and, Option.not_isSome_iff_eq_none] at hunknown
      obtain ⟨hbefore, hconstant, hruntime⟩ := hunknown
      -- The loop is the last binder, and nothing in front of it knows the name.
      have hsteps : ∀ step ∈ steps, ¬ step.Declares name := by
        rw [hrecent.split, List.forall_mem_append, List.forall_mem_cons]
        exact ⟨hbefore, id, fun step hstep h => hrecent.last step hstep h.binds⟩
      rw [hlower]
      exact (lowerDeclared_follow_of_global hstart hsteps location).2.2 hconstant hruntime
    · intro before d behind hrecent
      have hname : d.name = name := hrecent.binds
      have hbehind : ∀ step ∈ behind, ¬ step.Declares d.name :=
        fun step hstep h => hrecent.last step hstep (hname ▸ h.binds)
      have hheld := holding?_declared start before hbehind
      rw [hname, ← hrecent.split] at hheld
      rw [hlower, lowerDeclared, hheld]
      unfold held
      cases (start.follow before).fold? d.value <;> rfl
    · intro hnone
      rw [hlower]
      exact lowerDeclared_follow_of_global hstart (fun step hstep h => hnone step hstep h.binds)
        location

/-! ## Rows and cells -/

namespace Rows

/-- A program with the constant `row`. -/
def globals : Globals where
  constants := .ofDeclarations [⟨"row", .string "global" (.onLine 1), .onLine 1⟩]
  runtime := []

/-- The scope of an action of that program. -/
def start : Scope := .action globals [] .named

/-- A declaration of `row` that folds. -/
def folded : Declaration := ⟨"row", .string "local" (.onLine 3), .onLine 3⟩

/-- A declaration of `row` that is set at run time. -/
def runtime : Declaration := ⟨"row", .system "time" (.onLine 3), .onLine 3⟩

/-- Into a loop over rows that declares `row` again, and from there into a loop over cells. -/
def steps : List Step := [.enterLoop "row", .declare runtime, .enterLoop "cell", .enterBlock]

end Rows

/-- The item of the inner loop is reached, and so is the declaration in the body of the outer one,
which is more recent than that loop's item. -/
theorem lower_variable_lexical_rows :
    Expr.lower (Rows.start.follow Rows.steps) (.variable "cell" (.onLine 5)) =
        .ok (.string "$scope.currentItem") ∧
      Expr.lower (Rows.start.follow Rows.steps) (.variable "row" (.onLine 5)) =
        .ok (.string "$scope.variables.row") := by
  have hstart : Opens Rows.globals Rows.start := .action [] .named
  have hcell : InnermostLoop "cell" Rows.steps :=
    ⟨[.enterLoop "row", .declare Rows.runtime], [.enterBlock], rfl, by simp [Step.IsLoop]⟩
  have hrow : Recent "row" Rows.steps [.enterLoop "row"] (.declare Rows.runtime)
      [.enterLoop "cell", .enterBlock] := ⟨rfl, rfl, by simp [Step.Binds]⟩
  have hinnermost : ¬ InnermostLoop "row" Rows.steps := by
    intro h
    have hitem := h.loopItem? Rows.start
    rw [hcell.loopItem? Rows.start] at hitem
    exact absurd hitem (by decide)
  refine ⟨(lower_variable_lexical hstart _ _ _).1 hcell, ?_⟩
  refine ((lower_variable_lexical hstart _ _ _).2 hinnermost ?_).declaration _ _ _ hrow
  rintro ⟨before, behind, hloop, -⟩
  cases (hloop.unique hrow).2.1

/-- The law of lexical scope fails in two places. A declaration in the body of a loop does not hide
the item of that loop, although it is more recent. And the item of an outer loop does not hide the
constant outside of that loop, although it is more recent than that. -/
theorem not_lexical :
    ¬ Lexical Rows.globals Rows.start [.enterLoop "row", .declare Rows.folded] "row"
        (.onLine 5) ∧
      ¬ Lexical Rows.globals Rows.start [.enterLoop "row", .enterLoop "cell"] "row"
        (.onLine 5) := by
  constructor
  · intro h
    have hlocal : Expr.lower _ _ = .ok (.string "local") :=
      h.declaration [.enterLoop "row"] Rows.folded [] ⟨rfl, rfl, by simp⟩
    have hitem : InnermostLoop "row" [.enterLoop "row", .declare Rows.folded] :=
      ⟨[], [.declare Rows.folded], rfl, by simp [Step.IsLoop]⟩
    rw [lower_variable, if_pos (hitem.loopItem? Rows.start)] at hlocal
    exact absurd hlocal (by simp [DataPath.loopItem])
  · intro h
    obtain ⟨e, he⟩ := (h.loop [] [.enterLoop "cell"] ⟨rfl, rfl, by simp [Step.Binds]⟩).2
      ⟨_, List.mem_singleton_self _, trivial⟩
    have hglobal : Expr.lower (Rows.start.follow [.enterLoop "row", .enterLoop "cell"])
        (.variable "row" (.onLine 5)) = .ok (.string "global") := rfl
    rw [hglobal] at he
    cases he

end Scope

end Cuesheet
