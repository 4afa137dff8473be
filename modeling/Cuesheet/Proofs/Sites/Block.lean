import Cuesheet.Lowering.Draft
import Cuesheet.Proofs.Except

/-!
# Where the operations of a configuration come from

Lowering flattens a program, and a flat list of operations no longer shows which statement each of
them stands for. This file says it: `Stmt.sitesIn` lists, for a block that is lowered in a given
scope, the site of every operation **in the order of the operations**, and `Stmt.lowerBlock_sites`
proves that the two lists match place by place. A site is a node of the program or of a library, so
it has a location; for a call of an action it also knows the document in which the call is written.

The lists of sites follow the nesting of the source and know nothing of the values that are lowered.
All they ask of the scope is whether a declaration folds, because one that does leaves no operation.
-/

set_option autoImplicit false

namespace Cuesheet

/-- A node that an entity of a configuration is lowered from. -/
inductive Site where
  | program (p : Program)
  /-- The first global that is set at run time. -/
  | global (d : Declaration)
  | action (a : Action)
  | eventAction (a : EventAction)
  | timeline (t : Timeline)
  | event (e : TimelineEvent)
  | item (i : SequenceItem)
  /-- The half of a call that finds the action; `origin` is the document of the call. -/
  | request (origin : Origin) (c : Call)
  /-- The half of a call that runs the action. -/
  | run (origin : Origin) (c : Call) (half : CallHalf)
  /-- Any other statement. -/
  | statement (origin : Origin) (s : Stmt)

namespace Site

/-- Where the node stands. -/
def location : Site → Location
  | program p => p.location
  | global d => d.location
  | action a => a.location
  | eventAction a => a.location
  | timeline t => t.location
  | event (.timed _ _ _ l) | event (.sequence _ l) | event (.stagger _ _ _ _ l) => l
  | item i => i.location
  | request _ c | run _ c _ => c.location
  | statement _ s => s.location

/-- The operations that a node can stand for. A request names the action that the call means in the
document in which it is written. -/
inductive Emits (callables : Callables) : Site → String → Dict Json → Prop
  | request {origin : Origin} {c : Call} {found : Callable}
      (h : callables.find? origin c.name = some found) :
      Emits callables (.request origin c) "requestAction"
        [("systemName", .string (callables.emittedName origin found))]
  | run {origin : Origin} {c : Call} {half : CallHalf} {arguments : Dict Json} :
      Emits callables (.run origin c half) half.operation
        [("actionOperationData", .object arguments)]
  | call {origin : Origin} {c : Call} {data : Dict Json}
      (h : callables.find? origin c.name = none) :
      Emits callables (.statement origin (.call c)) c.name data
  | declaration {origin : Origin} {d : Declaration} {value : Json} :
      Emits callables (.statement origin (.declaration d)) "setVariable"
        [("name", .string d.name), ("value", value)]
  | branch {origin : Origin} {condition : Expr} {thenBody : List Stmt}
      {elseBody : Option (List Stmt)} {l : Location} {name : String} {data : Dict Json}
      (h : name ∈ ["when", "otherwise", "endWhen"]) :
      Emits callables (.statement origin (.branch condition thenBody elseBody l)) name data
  | loop {origin : Origin} {item : String} {collection : Expr} {body : List Stmt} {l : Location}
      {name : String} {data : Dict Json} (h : name ∈ ["forEach", "endForEach"]) :
      Emits callables (.statement origin (.loop item collection body l)) name data
  | breakLoop {origin : Origin} {l : Location} :
      Emits callables (.statement origin (.breakLoop l)) "breakForEach" []
  | continueLoop {origin : Origin} {l : Location} :
      Emits callables (.statement origin (.continueLoop l)) "continueForEach" []
  | global {d : Declaration} {properties : Dict Json} :
      Emits callables (.global d) "setGlobalData" [("properties", .object properties)]

/-- A request can only have come from a call of an action, and it names the one that the call
means. -/
theorem Emits.request_inv {callables : Callables} {origin : Origin} {c : Call} {name : String}
    {data : Dict Json} (h : Emits callables (.request origin c) name data) :
    ∃ found, callables.find? origin c.name = some found ∧ name = "requestAction" ∧
      data = [("systemName", .string (callables.emittedName origin found))] := by
  cases h with
  | request hfound => exact ⟨_, hfound, rfl, rfl⟩

/-- An operation of a draft stands for a node: it carries its location, and the node emits it. -/
def LoweredTo (callables : Callables) (site : Site) (o : DraftOperation) : Prop :=
  o.id = site.location ∧ site.Emits callables o.name o.data

end Site

/-! ## Blocks -/

/-- The two sites of a call of an action. -/
def Call.sites (origin : Origin) (c : Call) (half : CallHalf) : List Site :=
  [.request origin c, .run origin c half]

namespace Stmt

mutual

/-- The sites of the operations of a statement, in order. -/
def sites (here : Surroundings) (scope : Scope) : Stmt → List Site
  | .call c =>
    if (here.action? c.name).isSome then c.sites here.origin .start
    else [.statement here.origin (.call c)]
  | .declaration d =>
    if (scope.fold? d.value).isSome then [] else [.statement here.origin (.declaration d)]
  | .branch condition thenBody elseBody l =>
    let own : Site := .statement here.origin (.branch condition thenBody elseBody l)
    own :: (sitesIn here scope.enterBlock thenBody ++ sitesInElse here scope own elseBody ++ [own])
  | .loop item collection body l =>
    let own : Site := .statement here.origin (.loop item collection body l)
    own :: (sitesIn here (scope.enterLoop item) body ++ [own])
  | .breakLoop l => [.statement here.origin (.breakLoop l)]
  | .continueLoop l => [.statement here.origin (.continueLoop l)]

/-- The sites of the operations of a list of statements, in order. -/
def sitesIn (here : Surroundings) (scope : Scope) : List Stmt → List Site
  | [] => []
  | s :: rest => sites here scope s ++ sitesIn here (s.scopeAfter scope) rest

/-- The sites of the operations of a second branch, in order; `own` is the branching statement. -/
def sitesInElse (here : Surroundings) (scope : Scope) (own : Site) :
    Option (List Stmt) → List Site
  | none => []
  | some body => own :: sitesIn here scope.enterBlock body

end

end Stmt

/-- A call of an action becomes two operations, a request and a run. -/
theorem invoke_sites {callables : Callables} {origin : Origin} {scope : Scope} {name : String}
    {action : Action} {c : Call} {half : CallHalf} {found : Callable} {ops : List DraftOperation}
    (hfound : callables.find? origin c.name = some found)
    (hname : name = callables.emittedName origin found)
    (h : invoke scope name action c.arguments half c.location = .ok ops) :
    List.Forall₂ (Site.LoweredTo callables) (c.sites origin half) ops := by
  unfold invoke at h
  split at h
  · exact absurd h (by simp)
  · obtain ⟨data, -, hops⟩ := Except.bind_ok h
    cases hops
    subst hname
    exact .cons ⟨rfl, .request hfound⟩ (.cons ⟨rfl, .run⟩ .nil)

/-- The document in which the call is written decides what it means: an action that is seen there,
or else an operation of the catalogue. -/
theorem Call.lower_sites {here : Surroundings} {scope : Scope} {c : Call}
    {ops : List DraftOperation} (h : c.lower here scope = .ok ops) :
    List.Forall₂ (Site.LoweredTo here.callables) (Stmt.sites here scope (.call c)) ops := by
  unfold Call.lower at h
  cases hfound : here.callables.find? here.origin c.name with
  | some found =>
    have haction : here.action? c.name =
        some (here.callables.emittedName here.origin found, found.action) := by
      simp [Surroundings.action?, hfound]
    rw [haction] at h
    simp only [Stmt.sites, haction, Option.isSome_some, if_true]
    exact invoke_sites hfound rfl h
  | none =>
    have haction : here.action? c.name = none := by simp [Surroundings.action?, hfound]
    rw [haction] at h
    simp only [Stmt.sites, haction, Option.isSome_none, Bool.false_eq_true, if_false]
    cases hop : Catalogue.lookup? c.name with
    | none => rw [hop] at h; exact absurd h (by simp)
    | some op =>
      -- The operation is found by its name, so the two agree.
      have hname : op.name = c.name := by simpa using List.find?_some hop
      rw [hop] at h
      obtain ⟨values, -, h⟩ := Except.bind_ok h
      split at h
      · cases h
        rw [hname]
        exact .cons ⟨rfl, .call hfound⟩ .nil
      · exact absurd h (by simp)

theorem Declaration.lower_sites {here : Surroundings} {scope : Scope} {d : Declaration}
    {ops : List DraftOperation} (h : d.lower scope = .ok ops) :
    List.Forall₂ (Site.LoweredTo here.callables) (Stmt.sites here scope (.declaration d)) ops := by
  obtain ⟨value, -, h⟩ := Except.bind_ok h
  rw [Stmt.sites]
  split at h
  · rename_i hfold
    cases h
    rw [if_pos hfold]
    exact .nil
  · rename_i hfold
    cases h
    rw [if_neg hfold]
    exact .cons ⟨rfl, .declaration⟩ .nil

theorem loopOperation_ok {scope : Scope} {keyword operation : String} {l : Location}
    {ops : List DraftOperation} (h : loopOperation scope keyword operation l = .ok ops) :
    ops = [⟨l, operation, []⟩] := by
  unfold loopOperation at h
  split at h
  · cases h; rfl
  · exact absurd h (by simp)

namespace Stmt

section

variable {here : Surroundings} {scope : Scope} {l : Location} {ops : List DraftOperation}

/-- What becomes of a branch: its bodies, between the marks for its start and its end. The proofs
about all statements go over the parts of a statement, and take them from here. -/
theorem lower_branch_ok {condition : Expr} {thenBody : List Stmt} {elseBody : Option (List Stmt)}
    (h : lower here scope (.branch condition thenBody elseBody l) = .ok ops) :
    ∃ text first second, condition.condition scope = .ok text ∧
      lowerBlock here scope.enterBlock thenBody = .ok first ∧
      lowerElse here scope l elseBody = .ok second ∧
      ops = ⟨l, "when", [("expression", .string text)]⟩ ::
        (first ++ second ++ [⟨l, "endWhen", []⟩]) := by
  rw [lower] at h
  obtain ⟨text, htext, h⟩ := Except.bind_ok h
  obtain ⟨first, hfirst, h⟩ := Except.bind_ok h
  obtain ⟨second, hsecond, h⟩ := Except.bind_ok h
  exact ⟨text, first, second, htext, hfirst, hsecond, (Except.ok.inj h).symm⟩

theorem lower_loop_ok {item : String} {collection : Expr} {body : List Stmt}
    (h : lower here scope (.loop item collection body l) = .ok ops) :
    ∃ items inner, collection.lower scope = .ok items ∧
      lowerBlock here (scope.enterLoop item) body = .ok inner ∧
      ops = ⟨l, "forEach", [("collection", items), ("itemName", .string item)]⟩ ::
        (inner ++ [⟨l, "endForEach", []⟩]) := by
  rw [lower] at h
  obtain ⟨items, hitems, h⟩ := Except.bind_ok h
  obtain ⟨inner, hinner, h⟩ := Except.bind_ok h
  exact ⟨items, inner, hitems, hinner, (Except.ok.inj h).symm⟩

theorem lowerBlock_cons_ok {s : Stmt} {rest : List Stmt}
    (h : lowerBlock here scope (s :: rest) = .ok ops) :
    ∃ first others, lower here scope s = .ok first ∧
      lowerBlock here (s.scopeAfter scope) rest = .ok others ∧ ops = first ++ others := by
  rw [lowerBlock] at h
  obtain ⟨first, hfirst, h⟩ := Except.bind_ok h
  obtain ⟨others, hothers, h⟩ := Except.bind_ok h
  exact ⟨first, others, hfirst, hothers, (Except.ok.inj h).symm⟩

theorem lowerElse_some_ok {body : List Stmt} (h : lowerElse here scope l (some body) = .ok ops) :
    ∃ inner, lowerBlock here scope.enterBlock body = .ok inner ∧
      ops = ⟨l, "otherwise", []⟩ :: inner := by
  rw [lowerElse] at h
  obtain ⟨inner, hinner, h⟩ := Except.bind_ok h
  exact ⟨inner, hinner, (Except.ok.inj h).symm⟩

end

mutual

/-- **The operations of a statement match its sites, place by place.** Where the statement has a
body its own sites stand around those of the body, as its operations do. -/
theorem lower_sites (here : Surroundings) : ∀ (s : Stmt) {scope : Scope}
    {ops : List DraftOperation}, lower here scope s = .ok ops →
    List.Forall₂ (Site.LoweredTo here.callables) (sites here scope s) ops
  | .call c, _, _, h => Call.lower_sites (by simpa [lower] using h)
  | .declaration d, _, _, h => Declaration.lower_sites (by simpa [lower] using h)
  | .branch condition thenBody elseBody l, scope, ops, h => by
    obtain ⟨text, first, second, -, hfirst, hsecond, rfl⟩ := lower_branch_ok h
    rw [sites]
    refine .cons ⟨rfl, .branch (by simp)⟩ ?_
    -- The order is that of the operations: the first body, the second one, and the end of the
    -- branch.
    refine List.rel_append (List.rel_append (lowerBlock_sites here thenBody hfirst) ?_)
      (.cons ⟨rfl, .branch (by simp)⟩ .nil)
    exact lowerElse_sites here elseBody rfl (.branch (by simp)) hsecond
  | .loop item collection body l, scope, ops, h => by
    obtain ⟨items, inner, -, hinner, rfl⟩ := lower_loop_ok h
    rw [sites]
    refine .cons ⟨rfl, .loop (by simp)⟩ ?_
    exact List.rel_append (lowerBlock_sites here body hinner) (.cons ⟨rfl, .loop (by simp)⟩ .nil)
  | .breakLoop l, _, _, h => by
    rw [lower] at h
    rw [loopOperation_ok h, sites]
    exact .cons ⟨rfl, .breakLoop⟩ .nil
  | .continueLoop l, _, _, h => by
    rw [lower] at h
    rw [loopOperation_ok h, sites]
    exact .cons ⟨rfl, .continueLoop⟩ .nil

/-- The operations of a block match its sites, place by place. -/
theorem lowerBlock_sites (here : Surroundings) : ∀ (body : List Stmt) {scope : Scope}
    {ops : List DraftOperation}, lowerBlock here scope body = .ok ops →
    List.Forall₂ (Site.LoweredTo here.callables) (sitesIn here scope body) ops
  | [], _, _, h => by
    rw [lowerBlock] at h
    cases h
    rw [sitesIn]
    exact .nil
  | s :: rest, _, _, h => by
    obtain ⟨first, others, hfirst, hothers, rfl⟩ := lowerBlock_cons_ok h
    rw [sitesIn]
    exact List.rel_append (lower_sites here s hfirst) (lowerBlock_sites here rest hothers)

/-- The operations of a second branch match its sites: `otherwise` stands for the branching
statement. -/
theorem lowerElse_sites (here : Surroundings) : ∀ (elseBody : Option (List Stmt)) {scope : Scope}
    {l : Location} {own : Site} {ops : List DraftOperation}, l = own.location →
    own.Emits here.callables "otherwise" [] → lowerElse here scope l elseBody = .ok ops →
    List.Forall₂ (Site.LoweredTo here.callables) (sitesInElse here scope own elseBody) ops
  | none, _, _, _, _, _, _, h => by
    rw [lowerElse] at h
    cases h
    rw [sitesInElse]
    exact .nil
  | some body, _, _, _, _, hl, hown, h => by
    obtain ⟨inner, hinner, rfl⟩ := lowerElse_some_ok h
    rw [sitesInElse]
    exact .cons ⟨hl, hown⟩ (lowerBlock_sites here body hinner)

end

end Stmt

end Cuesheet
