import Cuesheet.Proofs.Cues
import Cuesheet.Proofs.References

/-!
# What a draft fails for

Lowering a program has two stages. The draft is made part by part, and only then the data flow of
its lists of operations is checked. A failure carries its cause, and one cause belongs to the second
stage: that an operation lacks an entry. Here it is shown that no part of the first stage fails with
it, so that such a failure always stands for a complete draft (`Program.draft_lacksNothing`).

There is one lemma for each function that lowers something, put together by `LacksNothing.bind` in
the order of its steps.
-/

set_option autoImplicit false

namespace Cuesheet

/-! ## Failures that are not a lack of data -/

/-- The cause is an entry that an operation lacks. -/
def LowerError.Cause.isLack : LowerError.Cause → Bool
  | .missingData _ _ => true
  | _ => false

/-- Whatever goes wrong, it is not that an operation lacks an entry. -/
def Lowered.LacksNothing {α : Type} (m : Lowered α) : Prop :=
  ∀ e, m = .error e → e.cause.isLack = false

namespace Lowered.LacksNothing

variable {α β : Type}

theorem ok (a : α) : LacksNothing (.ok a) := by
  intro e h
  cases h

theorem error {cause : LowerError.Cause} {l : Location} (h : cause.isLack = false) :
    LacksNothing (.error ⟨cause, l⟩ : Lowered α) := by
  intro e he
  cases he
  exact h

/-- The rule for chains. It asks about the second step behind every result, also behind those that
the first step never gives, because no step here lacks data whatever it is given. -/
theorem bind {m : Lowered α} {k : α → Lowered β} (hm : LacksNothing m)
    (hk : ∀ a, LacksNothing (k a)) : LacksNothing (m >>= k) := by
  cases m with
  | error e => exact fun e' he => hm e' (by cases he; rfl)
  | ok a => exact hk a

theorem map {m : Lowered α} (hm : LacksNothing m) (f : α → β) : LacksNothing (m.map f) := by
  cases m with
  | error e => exact fun e' he => hm e' (by cases he; rfl)
  | ok a => exact .ok (f a)

/-- A list is lowered entry by entry, so it fails for the reason of one of its entries. -/
theorem list {lower : α → Lowered β} (lowerList : List α → Lowered (List β))
    (hnil : lowerList [] = .ok [])
    (hcons : ∀ x xs, lowerList (x :: xs) =
      lower x >>= fun y => lowerList xs >>= fun ys => .ok (y :: ys))
    (h : ∀ x, LacksNothing (lower x)) : ∀ xs, LacksNothing (lowerList xs)
  | [] => by
    rw [hnil]
    exact .ok []
  | x :: xs => by
    rw [hcons]
    exact .bind (h x) fun y => .bind (list lowerList hnil hcons h xs) fun ys => .ok _

end Lowered.LacksNothing

open Lowered

/-- A parameter fails where it is unknown, outside of actions, and where the item of an outer loop
hides it. -/
theorem Scope.lowerParameter_lacksNothing (scope : Scope) (name : String) (l : Location) :
    LacksNothing (scope.lowerParameter name l) := by
  unfold lowerParameter
  split
  · exact .ok _
  · exact .ok _
  · exact .ok _
  · exact .error rfl
  · exact .ok _
  · split <;> exact .error rfl

theorem Scope.lowerVariable_lacksNothing (scope : Scope) (name : String) (l : Location) :
    LacksNothing (scope.lowerVariable name l) := by
  unfold lowerVariable
  split
  · exact .ok _
  · split
    · exact .ok _
    · split
      · exact .ok _
      · exact .error rfl

namespace Expr

variable (scope : Scope)

mutual

-- What folds is a value and cannot fail, so only the rest is taken apart.
theorem lower_lacksNothing : ∀ (e : Expr), LacksNothing (lower scope e) := by
  intro e
  cases hfold : scope.fold? e with
  | some value =>
    rw [lower_of_fold? hfold]
    exact .ok value
  | none =>
    unfold lower
    simp only [hfold]
    match e with
    | .array elements l => exact .bind (lowerList_lacksNothing elements) fun _ => .ok _
    | .object properties l => exact .bind (lowerProperties_lacksNothing properties) fun _ => .ok _
    | .binary op left right l =>
      exact .bind (operand_lacksNothing left) fun _ =>
        .bind (operand_lacksNothing right) fun _ => .ok _
    | .unary op inner l => exact .bind (operand_lacksNothing inner) fun _ => .ok _
    | .parameter name l => exact scope.lowerParameter_lacksNothing name l
    | .variable name l => exact scope.lowerVariable_lacksNothing name l
    | .system name l => exact .ok _
    | .chain root properties l => exact .ok _
    | .string s l => exact .error rfl
    | .number x l => exact .error rfl
    | .boolean b l => exact .error rfl
    | .null l => exact .error rfl

/-- Inside operators an expression becomes text. The failures are those of `lower`, as the text is
made of what has been lowered. -/
theorem operand_lacksNothing : ∀ (e : Expr), LacksNothing (operand scope e) := by
  intro e
  cases hfold : scope.fold? e with
  | some value =>
    rw [operand_of_fold? hfold]
    exact .ok value.compact
  | none =>
    unfold operand
    simp only [hfold]
    match e with
    | .array elements l => exact .bind (lowerList_lacksNothing elements) fun _ => .ok _
    | .object properties l => exact .bind (lowerProperties_lacksNothing properties) fun _ => .ok _
    | .binary op left right l =>
      exact .bind (operand_lacksNothing left) fun _ =>
        .bind (operand_lacksNothing right) fun _ => .ok _
    | .unary op inner l => exact .bind (operand_lacksNothing inner) fun _ => .ok _
    | .parameter name l => exact (scope.lowerParameter_lacksNothing name l).map _
    | .variable name l => exact (scope.lowerVariable_lacksNothing name l).map _
    | .system name l => exact .ok _
    | .chain root properties l => exact .ok _
    | .string s l => exact .error rfl
    | .number x l => exact .error rfl
    | .boolean b l => exact .error rfl
    | .null l => exact .error rfl

theorem lowerList_lacksNothing : ∀ (es : List Expr), LacksNothing (lowerList scope es)
  | [] => .ok []
  | e :: es =>
    .bind (lower_lacksNothing e) fun _ => .bind (lowerList_lacksNothing es) fun _ => .ok _

theorem lowerProperties_lacksNothing : ∀ (properties : List (String × Expr)),
    LacksNothing (lowerProperties scope properties)
  | [] => .ok []
  | (_, e) :: properties =>
    .bind (lower_lacksNothing e) fun _ =>
      .bind (lowerProperties_lacksNothing properties) fun _ => .ok _

end

/-- A condition is the text of an operand, without the brackets around the outermost operator. -/
theorem condition_lacksNothing (e : Expr) : LacksNothing (condition scope e) := by
  unfold condition
  split
  · exact .ok _
  · split
    · exact .bind (operand_lacksNothing scope _) fun _ =>
        .bind (operand_lacksNothing scope _) fun _ => .ok _
    · exact operand_lacksNothing scope _

end Expr

theorem argumentData_lacksNothing (scope : Scope) : ∀ (parameters : List ActionParameter)
    (arguments : List Expr), LacksNothing (argumentData scope parameters arguments)
  | [], _ => .ok []
  | _ :: _, [] => .ok []
  | _ :: parameters, e :: arguments =>
    .bind (e.lower_lacksNothing scope) fun _ =>
      .bind (argumentData_lacksNothing scope parameters arguments) fun _ => .ok _

/-- Calls of actions fail for their number of arguments, or where an argument does. -/
theorem invoke_lacksNothing (scope : Scope) (name : String) (action : Action)
    (arguments : List Expr) (half : CallHalf) (l : Location) :
    LacksNothing (invoke scope name action arguments half l) := by
  unfold invoke
  split
  · exact .error rfl
  · exact .bind (argumentData_lacksNothing scope _ _) fun _ => .ok _

/-- A call means an action, an operation of the catalogue or nothing, and the causes differ. Binding
the arguments of an operation has errors of its own, which are not a lack of data either. -/
theorem Call.lower_lacksNothing (here : Surroundings) (scope : Scope) (c : Call) :
    LacksNothing (c.lower here scope) := by
  unfold lower
  split
  · exact invoke_lacksNothing scope _ _ _ _ _
  · split
    · exact .error rfl
    · refine .bind (Expr.lowerList_lacksNothing scope _) fun values => ?_
      split
      · exact .ok _
      · exact .error rfl

theorem Call.lowerHalves_lacksNothing (here : Surroundings) (scope : Scope) (c : Call) :
    LacksNothing (c.lowerHalves here scope) := by
  unfold lowerHalves
  split
  · exact .error rfl
  · refine .bind (invoke_lacksNothing scope _ _ _ _ _) fun start => ?_
    split
    · exact .bind (invoke_lacksNothing scope _ _ _ _ _) fun finish => .ok _
    · exact .ok _

theorem Declaration.lower_lacksNothing (scope : Scope) (d : Declaration) :
    LacksNothing (d.lower scope) := by
  refine .bind (d.value.lower_lacksNothing scope) fun value => ?_
  split <;> exact .ok _

/-- A jump fails where there is no loop around it. -/
theorem loopOperation_lacksNothing (scope : Scope) (keyword operation : String) (l : Location) :
    LacksNothing (loopOperation scope keyword operation l) := by
  unfold loopOperation
  split
  · exact .ok _
  · exact .error rfl

namespace Stmt

variable (here : Surroundings)

mutual

theorem lower_lacksNothing : ∀ (scope : Scope) (s : Stmt), LacksNothing (lower here scope s)
  | scope, .call c => by
    rw [lower]
    exact c.lower_lacksNothing here scope
  | scope, .declaration d => by
    rw [lower]
    exact d.lower_lacksNothing scope
  | scope, .branch condition thenBody elseBody l => by
    rw [lower]
    exact .bind (condition.condition_lacksNothing scope) fun _ =>
      .bind (lowerBlock_lacksNothing _ thenBody) fun _ =>
      .bind (lowerElse_lacksNothing scope l elseBody) fun _ => .ok _
  | scope, .loop item collection body l => by
    rw [lower]
    exact .bind (collection.lower_lacksNothing scope) fun _ =>
      .bind (lowerBlock_lacksNothing _ body) fun _ => .ok _
  | scope, .breakLoop l => by
    rw [lower]
    exact loopOperation_lacksNothing scope _ _ l
  | scope, .continueLoop l => by
    rw [lower]
    exact loopOperation_lacksNothing scope _ _ l

/-- A block fails where its first failing statement does. The scopes behind declarations differ, but
the statement is about all scopes. -/
theorem lowerBlock_lacksNothing : ∀ (scope : Scope) (body : List Stmt),
    LacksNothing (lowerBlock here scope body)
  | _, [] => .ok []
  | scope, s :: body => by
    rw [lowerBlock]
    exact .bind (lower_lacksNothing scope s) fun _ =>
      .bind (lowerBlock_lacksNothing _ body) fun _ => .ok _

theorem lowerElse_lacksNothing : ∀ (scope : Scope) (l : Location) (elseBody : Option (List Stmt)),
    LacksNothing (lowerElse here scope l elseBody)
  | _, _, none => .ok []
  | scope, l, some body => by
    rw [lowerElse]
    exact .bind (lowerBlock_lacksNothing _ body) fun _ => .ok _

end

end Stmt

namespace TimeExpr

/-- Times fail where a divisor is zero and where they refer to something by name, which no timeline
can resolve. -/
theorem seconds_lacksNothing (previous : Float) :
    ∀ (e : TimeExpr), LacksNothing (e.seconds previous)
  | .literal value unit l => .ok _
  | .relative value unit l => .ok _
  | .reference name l => .error rfl
  | .binary op left right l => by
    rw [seconds]
    refine .bind (seconds_lacksNothing previous left) fun first =>
      .bind (seconds_lacksNothing previous right) fun second => ?_
    cases op with
    | add | sub | mul => exact .ok _
    | div =>
      dsimp only
      split
      · exact .error rfl
      · exact .ok _

theorem duration_lacksNothing (e : TimeExpr) : LacksNothing e.duration := by
  refine .bind (e.seconds_lacksNothing 0.0) fun length => ?_
  split
  · exact .error rfl
  · exact .ok _

end TimeExpr

theorem TimelineAction.lower_lacksNothing (here : Surroundings) (scope : Scope) (timeline : String)
    (index : Nat) (window : Engine.Window) (l : Location) (action : TimelineAction) :
    LacksNothing (action.lower here scope timeline index window l) := by
  cases action with
  | inline start finish =>
    exact .bind (Stmt.lowerBlock_lacksNothing here _ start) fun _ =>
      .bind (Stmt.lowerBlock_lacksNothing here _ finish) fun _ => .ok _
  | named c => exact .bind (c.lowerHalves_lacksNothing here scope) fun _ => .ok _

/-- A cue brings two causes of its own: a window that is not valid, and whatever its action fails
for. -/
theorem Cue.lowerBefore_lacksNothing (here : Surroundings) (timeline : String) (index : Nat)
    (cue : Cue) {cause : LowerError.Cause} (hcause : cause.isLack = false) (l : Location)
    {rest : Lowered (List DraftTimelineAction × Float)} (hrest : LacksNothing rest) :
    LacksNothing (cue.lowerBefore here timeline index ⟨cause, l⟩ rest) := by
  unfold lowerBefore
  split
  · exact .error hcause
  · exact .bind (cue.action.lower_lacksNothing here cue.scope _ _ _ _) fun _ =>
      .bind hrest fun _ => .ok _

theorem SequenceItem.lowerList_lacksNothing (here : Surroundings) (scope : Scope)
    (timeline : String) : ∀ (items : List SequenceItem) (index : Nat) (cursor : Float),
      LacksNothing (lowerList here scope timeline index cursor items)
  | [], _, _ => .ok _
  | item :: items, index, cursor => by
    rw [lowerList_cons]
    exact .bind item.duration.duration_lacksNothing fun _ =>
      Cue.lowerBefore_lacksNothing here timeline index _ rfl _
        (lowerList_lacksNothing here scope timeline items _ _)

theorem Stagger.lowerItems_lacksNothing (here : Surroundings) (scope : Scope) (timeline : String)
    (stagger : Stagger) : ∀ (values : List Json) (index k : Nat) (latest : Float),
      LacksNothing (stagger.lowerItems here scope timeline index k latest values)
  | [], _, _, _ => .ok _
  | value :: values, index, k, latest => by
    rw [lowerItems_cons]
    exact Cue.lowerBefore_lacksNothing here timeline index _ rfl _
      (lowerItems_lacksNothing here scope timeline stagger values _ _ _)

theorem TimelineEvent.lower_lacksNothing (here : Surroundings) (scope : Scope) (timeline : String)
    (index : Nat) (cursor : Float) (event : TimelineEvent) :
    LacksNothing (event.lower here scope timeline index cursor) := by
  cases event with
  | timed start finish action l =>
    rw [lower_timed]
    exact .bind (start.seconds_lacksNothing cursor) fun _ =>
      .bind (finish.seconds_lacksNothing cursor) fun _ =>
        Cue.lowerBefore_lacksNothing here timeline index _ rfl _ (.ok _)
  | sequence items l =>
    exact SequenceItem.lowerList_lacksNothing here scope timeline items index cursor
  | stagger delay items action duration l =>
    refine .bind delay.duration_lacksNothing fun _ =>
      .bind duration.duration_lacksNothing fun _ => ?_
    split
    · exact Stagger.lowerItems_lacksNothing here scope timeline _ _ _ _ _
    · exact .error rfl

theorem TimelineEvent.lowerList_lacksNothing (here : Surroundings) (scope : Scope)
    (timeline : String) : ∀ (events : List TimelineEvent) (index : Nat) (cursor : Float),
      LacksNothing (lowerList here scope timeline index cursor events)
  | [], _, _ => .ok []
  | event :: events, index, cursor =>
    .bind (event.lower_lacksNothing here scope timeline index cursor) fun _ =>
      .bind (lowerList_lacksNothing here scope timeline events _ _) fun _ => .ok _

theorem RuntimeGlobals.collect_lacksNothing (constants : Constants) :
    ∀ (declarations : List Declaration) (found : RuntimeGlobals),
      LacksNothing (collect constants found declarations)
  | [], found => .ok found
  | d :: declarations, found => by
    unfold collect
    split
    · exact collect_lacksNothing constants declarations found
    · exact .bind (d.value.lower_lacksNothing _) fun _ =>
        collect_lacksNothing constants declarations _

theorem Callable.lowerList_lacksNothing (callables : Callables) (globals : Globals) :
    ∀ entries, LacksNothing (lowerList callables globals entries) := by
  refine .list (lowerList callables globals) rfl
    (fun _ _ => rfl) fun entry => ?_
  exact .bind (Stmt.lowerBlock_lacksNothing _ _ _) fun _ =>
    .bind (Stmt.lowerBlock_lacksNothing _ _ _) fun _ => .ok _

theorem EventAction.lowerList_lacksNothing (callables : Callables) (globals : Globals) :
    ∀ eventActions, LacksNothing (lowerList callables globals eventActions) := by
  refine .list (lowerList callables globals) rfl (fun _ _ => rfl) fun e => ?_
  exact .bind (Stmt.lowerBlock_lacksNothing _ _ _) fun _ => .ok _

theorem Timeline.lowerList_lacksNothing (callables : Callables) (globals : Globals) (loops : Bool) :
    ∀ timelines, LacksNothing (lowerList callables globals loops timelines) := by
  refine .list (lowerList callables globals loops) rfl (fun _ _ => rfl) fun t => ?_
  exact .bind (TimelineEvent.lowerList_lacksNothing _ _ _ _ _ _) fun _ => .ok _

/-- **A draft fails for many reasons, but a lack of data is none of them.** So where a program fails
for a lack of data, it has a complete draft, and the failure comes from the check of that draft. -/
theorem Program.draft_lacksNothing (p : Program) (documents : Documents) (assets : Assets)
    (settings : Settings) : LacksNothing (p.draft documents assets settings) := by
  -- The parts in the order in which they are drafted. That there is no timeline is found out
  -- between the event actions and the timelines.
  refine .bind (RuntimeGlobals.collect_lacksNothing _ _ _) fun runtime => ?_
  refine .bind (Callable.lowerList_lacksNothing _ _ _) fun actions => ?_
  refine .bind (EventAction.lowerList_lacksNothing _ _ _) fun eventActions => ?_
  split
  · exact .error rfl
  · exact .bind (Timeline.lowerList_lacksNothing _ _ _ _) fun timelines => .ok _

end Cuesheet
