import Cuesheet.Proofs.Arguments
import Cuesheet.Proofs.Dataflow
import Cuesheet.Proofs.SourceMap

/-!
# Operations fit the catalogue

Every operation of a configuration is one of the catalogue, and its data fits the signature.
Operations that are called by name are bound to their signature when they are lowered. The others
are made up by the lowering itself, for branches, loops, declarations, globals and calls of actions,
and nothing checks them: what is shown here is that each of these forms fits the signature of its
name.

One form depends on the program. A loop passes on what its collection is lowered to, and `forEach`
takes an array or a text. So programs are looked at whose loops go through arrays and texts:
`Program.collections` lists the collections of all loops, each with the scope in which it is
lowered.
-/

set_option autoImplicit false

namespace Cuesheet

/-! ## Forms that the lowering makes up -/

namespace Catalogue

/-- The catalogue has an operation of this name, and the data fits its signature. -/
def Conforms (name : String) (data : Dict Json) : Prop :=
  ∃ op, lookup? name = some op ∧ op.Fits data

instance (name : String) (data : Dict Json) : Decidable (Conforms name data) :=
  decidable_of_iff ((lookup? name).any fun op => op.Fits data) (by
    simp [Conforms, Option.any_eq_true])

/-- A condition is passed as text, whatever the text is. -/
theorem conforms_when (text : String) : Conforms "when" [("expression", .string text)] :=
  of_decide_eq_true rfl

theorem conforms_mark {name : String}
    (h : name ∈ ["otherwise", "endWhen", "endForEach", "breakForEach", "continueForEach"]) :
    Conforms name [] := by
  revert name
  decide +kernel

/-- The signature of `forEach` asks for an array or a text. No other form that is made up here has
data whose kind the program decides. -/
theorem conforms_forEach {items : Json} (h : items.kind = .array ∨ items.kind = .string)
    (item : String) : Conforms "forEach" [("collection", items), ("itemName", .string item)] := by
  cases items with
  | array elements => exact of_decide_eq_true rfl
  | string text => exact of_decide_eq_true rfl
  | null | bool _ | int _ | float _ | object _ => simp [Json.kind] at h

theorem conforms_setVariable (name : String) (value : Json) :
    Conforms "setVariable" [("name", .string name), ("value", value)] :=
  of_decide_eq_true rfl

theorem conforms_setGlobalData (properties : Dict Json) :
    Conforms "setGlobalData" [("properties", .object properties)] :=
  of_decide_eq_true rfl

theorem conforms_requestAction (name : String) :
    Conforms "requestAction" [("systemName", .string name)] :=
  of_decide_eq_true rfl

/-- Running either half of an action takes the arguments as one object; which names are in it is not
looked at. -/
theorem conforms_half (half : CallHalf) (arguments : Dict Json) :
    Conforms half.operation [("actionOperationData", .object arguments)] := by
  cases half <;> exact of_decide_eq_true rfl

end Catalogue

/-- All operations of a list fit the catalogue. -/
def Conforming {ι : Type} (operations : List (Engine.Operation ι)) : Prop :=
  ∀ o ∈ operations, Catalogue.Conforms o.name o.data

namespace Conforming

variable {ι : Type} {o : Engine.Operation ι} {first second : List (Engine.Operation ι)}

theorem nil : Conforming ([] : List (Engine.Operation ι)) := by
  intro o ho
  cases ho

theorem cons (ho : Catalogue.Conforms o.name o.data) (h : Conforming first) :
    Conforming (o :: first) :=
  List.forall_mem_cons.mpr ⟨ho, h⟩

theorem append (h : Conforming first) (h' : Conforming second) : Conforming (first ++ second) :=
  List.forall_mem_append.mpr ⟨h, h'⟩

/-- Ids are no part of what fits. -/
theorem map_iff {κ : Type} {f : ι → κ} :
    Conforming (first.map (Engine.Operation.map f)) ↔ Conforming first :=
  List.forall_mem_map

end Conforming

/-! ## Loops -/

/-- The expression can be gone through: it is lowered to an array or a text, if at all. -/
def Expr.Iterable (scope : Scope) (e : Expr) : Prop :=
  ∀ value, e.lower scope = .ok value → value.kind = .array ∨ value.kind = .string

instance (scope : Scope) (e : Expr) : Decidable (e.Iterable scope) :=
  match h : e.lower scope with
  | .ok value =>
    decidable_of_iff (value.kind = .array ∨ value.kind = .string) (by simp [Expr.Iterable, h])
  | .error _ => isTrue (by simp [Expr.Iterable, h])

namespace Stmt

mutual

/-- The collections of the loops in a statement, each with its scope. -/
def collections (scope : Scope) : Stmt → List (Scope × Expr)
  | .branch _ thenBody elseBody _ =>
    collectionsIn scope.enterBlock thenBody ++ collectionsInElse scope elseBody
  | .loop item collection body _ =>
    (scope, collection) :: collectionsIn (scope.enterLoop item) body
  | .call _ | .declaration _ | .breakLoop _ | .continueLoop _ => []

/-- The collections of the loops in a list of statements. -/
def collectionsIn (scope : Scope) : List Stmt → List (Scope × Expr)
  | [] => []
  | s :: rest => collections scope s ++ collectionsIn (s.scopeAfter scope) rest

/-- The collections of the loops in a second branch. -/
def collectionsInElse (scope : Scope) : Option (List Stmt) → List (Scope × Expr)
  | none => []
  | some body => collectionsIn scope.enterBlock body

end

end Stmt

/-- The collections can all be gone through. -/
def AllIterable (collections : List (Scope × Expr)) : Prop :=
  ∀ c ∈ collections, c.2.Iterable c.1

instance (collections : List (Scope × Expr)) : Decidable (AllIterable collections) :=
  inferInstanceAs (Decidable (∀ c ∈ collections, c.2.Iterable c.1))

theorem AllIterable.left {first second : List (Scope × Expr)} (h : AllIterable (first ++ second)) :
    AllIterable first :=
  (List.forall_mem_append.mp h).1

theorem AllIterable.right {first second : List (Scope × Expr)} (h : AllIterable (first ++ second)) :
    AllIterable second :=
  (List.forall_mem_append.mp h).2

/-! ## Statements -/

/-- A call of an action is two operations, one that asks for the action and one that runs a half of
it. -/
theorem invoke_conforming {scope : Scope} {name : String} {action : Action}
    {arguments : List Expr} {half : CallHalf} {l : Location} {ops : List DraftOperation}
    (h : invoke scope name action arguments half l = .ok ops) : Conforming ops := by
  unfold invoke at h
  split at h
  · cases h
  · obtain ⟨data, -, h⟩ := Except.bind_ok h
    cases h
    exact .cons (Catalogue.conforms_requestAction name)
      (.cons (Catalogue.conforms_half half (Dict.ofList data)) .nil)

/-- The one place where data is checked: the arguments of an operation that is called by name have
been bound to its signature. The name under which it is found is also its own, as operations have no
other names. -/
theorem Call.lower_conforming {here : Surroundings} {scope : Scope} {c : Call}
    {ops : List DraftOperation} (h : c.lower here scope = .ok ops) : Conforming ops := by
  unfold Call.lower at h
  split at h
  · exact invoke_conforming h
  · split at h
    · cases h
    · rename_i op hop
      obtain ⟨values, -, h⟩ := Except.bind_ok h
      split at h
      · rename_i data hdata
        cases h
        have hfits := Signature.bind_fits (Catalogue.wellFormed_of_lookup? hop) hdata
        -- The operation is emitted under its own name, which is the name that it was found by.
        rw [← Catalogue.name_of_lookup? hop] at hop
        exact .cons ⟨op, hop, hfits⟩ .nil
      · cases h

/-- A declaration that folds leaves no operation, and any other sets a variable. -/
theorem Declaration.lower_conforming {scope : Scope} {d : Declaration} {ops : List DraftOperation}
    (h : d.lower scope = .ok ops) : Conforming ops := by
  obtain ⟨value, -, h⟩ := Except.bind_ok h
  split at h
  · cases h
    exact .nil
  · cases h
    exact .cons (Catalogue.conforms_setVariable d.name value) .nil

namespace Stmt

mutual

theorem lower_conforming (here : Surroundings) : ∀ (s : Stmt) {scope : Scope}
    {ops : List DraftOperation}, lower here scope s = .ok ops → AllIterable (collections scope s) →
    Conforming ops
  | .call c, _, _, h, _ => Call.lower_conforming (by simpa [lower] using h)
  | .declaration d, _, _, h, _ => Declaration.lower_conforming (by simpa [lower] using h)
  | .branch condition thenBody elseBody l, scope, ops, h, hloops => by
    obtain ⟨text, first, second, -, hfirst, hsecond, rfl⟩ := lower_branch_ok h
    rw [collections] at hloops
    -- The operations of a branch are `when`, the two bodies with `otherwise` between, and
    -- `endWhen`.
    refine .cons (Catalogue.conforms_when text) (.append (.append ?_ ?_) ?_)
    · exact lowerBlock_conforming here thenBody hfirst hloops.left
    · exact lowerElse_conforming here elseBody hsecond hloops.right
    · exact .cons (Catalogue.conforms_mark (by simp)) .nil
  | .loop item collection body l, scope, ops, h, hloops => by
    obtain ⟨items, inner, hitems, hinner, rfl⟩ := lower_loop_ok h
    rw [collections] at hloops
    -- The collection of this loop is the first of the list, with the scope in which it is lowered.
    obtain ⟨hcollection, hbody⟩ := List.forall_mem_cons.mp hloops
    refine .cons (Catalogue.conforms_forEach (hcollection items hitems) item) (.append ?_ ?_)
    · exact lowerBlock_conforming here body hinner hbody
    · exact .cons (Catalogue.conforms_mark (by simp)) .nil
  | .breakLoop l, _, _, h, _ => by
    rw [lower] at h
    rw [loopOperation_ok h]
    exact .cons (Catalogue.conforms_mark (by simp)) .nil
  | .continueLoop l, _, _, h, _ => by
    rw [lower] at h
    rw [loopOperation_ok h]
    exact .cons (Catalogue.conforms_mark (by simp)) .nil

/-- **The operations of a block fit the catalogue** if its loops go through arrays and texts. -/
theorem lowerBlock_conforming (here : Surroundings) : ∀ (body : List Stmt) {scope : Scope}
    {ops : List DraftOperation}, lowerBlock here scope body = .ok ops →
    AllIterable (collectionsIn scope body) → Conforming ops
  | [], _, _, h, _ => by
    rw [lowerBlock] at h
    cases h
    exact .nil
  | s :: rest, _, _, h, hloops => by
    obtain ⟨first, others, hfirst, hothers, rfl⟩ := lowerBlock_cons_ok h
    rw [collectionsIn] at hloops
    exact .append (lower_conforming here s hfirst hloops.left)
      (lowerBlock_conforming here rest hothers hloops.right)

/-- The mark between the branches stands there exactly if there is a second branch. -/
theorem lowerElse_conforming (here : Surroundings) : ∀ (elseBody : Option (List Stmt))
    {scope : Scope} {l : Location} {ops : List DraftOperation},
    lowerElse here scope l elseBody = .ok ops → AllIterable (collectionsInElse scope elseBody) →
    Conforming ops
  | none, _, _, _, h, _ => by
    rw [lowerElse] at h
    cases h
    exact .nil
  | some body, _, _, _, h, hloops => by
    obtain ⟨inner, hinner, rfl⟩ := lowerElse_some_ok h
    rw [collectionsInElse] at hloops
    exact .cons (Catalogue.conforms_mark (by simp))
      (lowerBlock_conforming here body hinner hloops)

end

end Stmt

/-! ## Actions and timelines -/

/-- The collections of the loops in an action. -/
def Callable.collections (globals : Globals) (c : Callable) : List (Scope × Expr) :=
  let scope := Scope.action globals c.action.parameterNames .named
  Stmt.collectionsIn scope.enterBlock c.action.body.start ++
    Stmt.collectionsIn scope.enterBlock c.action.body.finish

/-- The collections of the loops in an event action. -/
def EventAction.collections (globals : Globals) (a : EventAction) : List (Scope × Expr) :=
  Stmt.collectionsIn (Scope.action globals (a.parameters.map (·.name)) .positional) a.operations

/-- The collections of the loops in what an event runs. -/
def TimelineAction.collections (scope : Scope) : TimelineAction → List (Scope × Expr)
  | .inline start finish =>
    Stmt.collectionsIn scope.enterBlock start ++ Stmt.collectionsIn scope.enterBlock finish
  | .named _ => []

/-- The collections of the loops in a timeline: those of a stagger once for every element. -/
def Timeline.collections (globals : Globals) (t : Timeline) : List (Scope × Expr) :=
  (t.turns globals).flatMap fun turn => turn.action.collections (turn.scope (.top globals))

theorem Callable.lower_conforming {callables : Callables} {globals : Globals} {name : String}
    {c : Callable} {a : Engine.Action Location} (h : c.lower callables globals name = .ok a)
    (hloops : AllIterable (c.collections globals)) : Conforming (a.start ++ a.finish) := by
  obtain ⟨start, hstart, h⟩ := Except.bind_ok h
  obtain ⟨finish, hfinish, h⟩ := Except.bind_ok h
  cases h
  exact .append (Stmt.lowerBlock_conforming _ _ hstart hloops.left)
    (Stmt.lowerBlock_conforming _ _ hfinish hloops.right)

theorem EventAction.lower_conforming {callables : Callables} {globals : Globals} {e : EventAction}
    {a : Engine.EventAction Location} (h : e.lower callables globals = .ok a)
    (hloops : AllIterable (e.collections globals)) : Conforming a.start := by
  obtain ⟨start, hstart, h⟩ := Except.bind_ok h
  cases h
  exact Stmt.lowerBlock_conforming _ _ hstart hloops

/-- Both halves of a named action are calls. Without an end there is nothing to fit. -/
theorem Call.lowerHalves_conforming {here : Surroundings} {scope : Scope} {c : Call}
    {start finish : List DraftOperation} (h : c.lowerHalves here scope = .ok (start, finish)) :
    Conforming (start ++ finish) := by
  unfold Call.lowerHalves at h
  split at h
  · cases h
  · obtain ⟨first, hfirst, h⟩ := Except.bind_ok h
    split at h
    · obtain ⟨second, hsecond, h⟩ := Except.bind_ok h
      cases h
      exact .append (invoke_conforming hfirst) (invoke_conforming hsecond)
    · cases h
      exact .append (invoke_conforming hfirst) .nil

/-- All operations of some timeline actions fit the catalogue. -/
def ConformingActions (actions : List DraftTimelineAction) : Prop :=
  ∀ a ∈ actions, Conforming (a.start ++ a.finish)

theorem TimelineAction.lower_conforming {here : Surroundings} {scope : Scope} {timeline : String}
    {index : Nat} {window : Engine.Window} {l : Location} {action : TimelineAction}
    {a : DraftTimelineAction} (h : action.lower here scope timeline index window l = .ok a)
    (hloops : AllIterable (action.collections scope)) : Conforming (a.start ++ a.finish) := by
  cases action with
  | inline start finish =>
    obtain ⟨first, hfirst, h⟩ := Except.bind_ok h
    obtain ⟨second, hsecond, h⟩ := Except.bind_ok h
    cases h
    exact .append (Stmt.lowerBlock_conforming _ _ hfirst hloops.left)
      (Stmt.lowerBlock_conforming _ _ hsecond hloops.right)
  | named c =>
    obtain ⟨⟨first, second⟩, hhalves, h⟩ := Except.bind_ok h
    cases h
    exact Call.lowerHalves_conforming hhalves

/-- Every action of a timeline comes from a turn, and the loops of the turn are among those of the
timeline. -/
theorem Timeline.lower_conforming {callables : Callables} {globals : Globals} {loops : Bool}
    {t : Timeline} {lowered : Engine.Timeline Location}
    (h : t.lower callables globals loops = .ok lowered)
    (hloops : AllIterable (t.collections globals)) : ConformingActions lowered.actions := by
  intro a ha
  obtain ⟨turn, hturn, index, window, hlowered⟩ := Lowered.exists_of_forall₂ (lower_turns h).flip ha
  refine TimelineAction.lower_conforming hlowered fun c hc => hloops c ?_
  exact List.mem_flatMap.mpr ⟨turn, hturn, hc⟩

/-! ## Programs -/

namespace Program

/-- The collections of all loops that a configuration is made of, each with its scope: in actions
and helpers, in event actions, and in what timelines run. -/
def collections (p : Program) (documents : Documents) : List (Scope × Expr) :=
  ((Callables.ofProgram documents p).entries.flatMap fun entry => entry.2.collections p.globals) ++
    p.eventActions.flatMap (EventAction.collections p.globals) ++
    p.timelines.flatMap (Timeline.collections p.globals)

/-- A configuration has operations in four places: in the action that sets globals, in actions, in
event actions and on timelines. Each list is lowered from its own part of the program, and the loops
of that part are among those of the program. -/
theorem Drafted.operations_conforming {p : Program} {documents : Documents} {settings : Settings}
    {config : Engine.Config Location} (h : p.Drafted documents settings config)
    (hloops : AllIterable (p.collections documents)) : Conforming config.operations := by
  intro o ho
  simp only [Engine.Config.operations, List.mem_append, List.mem_flatMap] at ho
  rcases ho with (⟨a, ha, ho⟩ | ⟨a, ha, ho⟩) | ⟨t, ht, a, ha, ho⟩
  · rcases ha with ha | ha
    · obtain ⟨d, -, properties, rfl⟩ := Lowered.exists_of_forall₂ h.init.flip ha
      have hinit : Conforming ([⟨d.location, "setGlobalData",
          [("properties", .object properties)]⟩] : List DraftOperation) :=
        .cons (Catalogue.conforms_setGlobalData properties) .nil
      exact hinit o (by simpa using ho)
    · obtain ⟨entry, hentry, hlower⟩ := Lowered.exists_of_forall₂ h.actions.flip ha
      refine Callable.lower_conforming hlower ?_ o (List.mem_append.mpr ho)
      exact fun c hc => hloops.left.left c (List.mem_flatMap.mpr ⟨entry, hentry, hc⟩)
  · obtain ⟨e, he, hlower⟩ := Lowered.exists_of_forall₂ h.eventActions.flip ha
    refine EventAction.lower_conforming hlower ?_ o ho
    exact fun c hc => hloops.left.right c (List.mem_flatMap.mpr ⟨e, he, hc⟩)
  · obtain ⟨source, hsource, hlower⟩ := Lowered.exists_of_forall₂ h.timelines.flip ht
    refine Timeline.lower_conforming hlower ?_ a ha o (List.mem_append.mpr ho)
    exact fun c hc => hloops.right c (List.mem_flatMap.mpr ⟨source, hsource, hc⟩)

/-- **Every operation of a configuration fits the catalogue.** If the loops of a program go through
arrays and texts, then whatever it is lowered to, every operation names one of the catalogue, its
data has every parameter that is required there, and what stands under the name of a parameter is
accepted by it or only known at run time. -/
theorem lower_operations_conform {p : Program} {documents : Documents} {assets : Assets}
    {settings : Settings} {supply : Engine.IdSupply} {compiled : Compiled}
    (h : p.lower documents assets settings supply = .ok compiled)
    (hloops : AllIterable (p.collections documents)) : Conforming compiled.config.operations := by
  obtain ⟨draft, hdraft, hconfig, -, -⟩ := Program.lower_ok h
  obtain ⟨pairs, hpairs, hresult⟩ :=
    Engine.Config.number_pairs supply settings.configId draft.config ⟨0, .empty⟩
  have hdrafted := (Program.draft_ok hdraft).operations_conforming hloops
  have hcompiled : compiled.config = pairs.map Prod.fst := hconfig.trans hresult.symm
  -- Numbering changes nothing but ids, so the operations of the result fit as those of the draft
  -- do.
  rw [← hpairs, Engine.Config.operations_map, Conforming.map_iff] at hdrafted
  rw [hcompiled, Engine.Config.operations_map, Conforming.map_iff]
  exact hdrafted

/-- The sample goes through an array in a helper, and all its operations fit. -/
theorem lower_operations_conform_sample :
    (Sample.program.collections Sample.documents).length = 1 ∧
      ∃ compiled, Sample.program.lower Sample.documents .empty .deterministic .sequential =
        .ok compiled ∧ Conforming compiled.config.operations := by
  obtain ⟨compiled, h⟩ := Except.exists_ok (m := Sample.program.lower Sample.documents .empty
    .deterministic .sequential) (by decide +kernel)
  exact ⟨by decide +kernel, compiled, h, lower_operations_conform h (by decide +kernel)⟩

end Program

end Cuesheet
