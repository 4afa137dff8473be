import Cuesheet.Program.Basic
import Cuesheet.Proofs.Format.Record

/-!
# The numbers of a program

The numbers that stand in a program are the literals of its expressions and the amounts of its
times. Whatever a program is read from, these numbers stand there already: reading makes up none
(`Program.sourced_ofJson?`, `Library.sourced_ofJson?`). So a value with nothing but finite numbers
is read as a program with nothing but finite numbers.
-/

set_option autoImplicit false

namespace Cuesheet

open Json (Draws Sourced)

/-- All of the numbers are finite. -/
def AllFinite (xs : List Float) : Prop := ∀ x ∈ xs, x.isFinite = true

instance (xs : List Float) : Decidable (AllFinite xs) :=
  inferInstanceAs (Decidable (∀ x ∈ xs, x.isFinite = true))

theorem allFinite_append {xs ys : List Float} :
    AllFinite (xs ++ ys) ↔ AllFinite xs ∧ AllFinite ys :=
  List.forall_mem_append

theorem AllFinite.subset {xs ys : List Float} (h : AllFinite ys) (hsubset : xs ⊆ ys) :
    AllFinite xs :=
  fun x hx => h x (hsubset hx)

theorem AllFinite.of_mem {α : Type} {numbers : α → List Float} {as : List α}
    (h : AllFinite (as.flatMap numbers)) {a : α} (ha : a ∈ as) : AllFinite (numbers a) := by
  intro x hx
  exact h x (List.mem_flatMap.mpr ⟨a, ha, hx⟩)

/-! ## Expressions -/

namespace Expr

mutual

/-- The number literals of an expression, from left to right. -/
def numbers : Expr → List Float
  | .number value _ => [value]
  | .array elements _ => numbersIn elements
  | .object properties _ => numbersInProperties properties
  | .binary _ left right _ => numbers left ++ numbers right
  | .unary _ operand _ => numbers operand
  | .string _ _ | .boolean _ _ | .null _ | .parameter _ _ | .variable _ _ | .system _ _
  | .chain _ _ _ => []

def numbersIn : List Expr → List Float
  | [] => []
  | e :: rest => numbers e ++ numbersIn rest

def numbersInProperties : List (String × Expr) → List Float
  | [] => []
  | (_, e) :: rest => numbers e ++ numbersInProperties rest

end

/-- The functions over lists are written out because the recursion goes through them. Proofs use
this form, which is the one that the lemmas on readers of lists have. -/
theorem numbersIn_eq_flatMap (es : List Expr) : numbersIn es = es.flatMap numbers := by
  induction es with
  | nil => rfl
  | cons e es ih => rw [numbersIn, ih, List.flatMap_cons]

theorem numbersInProperties_eq_flatMap (properties : List (String × Expr)) :
    numbersInProperties properties = properties.flatMap fun property => property.2.numbers := by
  induction properties with
  | nil => rfl
  | cons property properties ih => rw [numbersInProperties, ih, List.flatMap_cons]

/-- An expression with a single field, made from something other than a number. -/
theorem draws_leaf {α : Type} {j : Json} (name : String) (read : Json → Option α) (make : α → Expr)
    (h : ∀ a, numbers (make a) = []) :
    Draws j numbers (do
      match ← j.fields? [name] with
      | [field] => return make (← Json.required read field)
      | _ => none) := by
  refine .bind fun fields hfields => ?_
  split
  · refine .bind fun a ha => .some ?_
    simp [h a]
  · exact .none

/-- Numbers are drawn from the value at every kind of node: a number literal has its own, and the
others have those of the expressions inside. By induction on the budget, which each level uses up by
one. -/
theorem sourced_read? : ∀ budget : Nat, Sourced numbers (read? budget) := by
  intro budget
  induction budget with
  | zero => exact fun _ => .none
  | succ budget ih =>
    intro j
    refine .bind fun found hfound => ?_
    obtain ⟨kind, l, record⟩ := found
    obtain rfl := Json.located?_eq_some hfound
    dsimp only
    split
    · -- The cases come in the order in which the reader tries the kinds.
      exact draws_leaf "value" Json.string? (.string · l) fun _ => rfl
    · refine .bind fun fields hfields => ?_
      split
      · refine .bind fun value hvalue => .some ?_
        exact Sourced.number.required hfields (by simp) value hvalue
      · exact .none
    · exact draws_leaf "value" Json.bool? (.boolean · l) fun _ => rfl
    · exact .some (List.nil_subset _)
    · refine .bind fun fields hfields => ?_
      split
      · refine .bind fun elements helements => .some ?_
        rw [numbers, numbersIn_eq_flatMap]
        exact ih.listOf.withDefault rfl hfields (by simp) elements helements
      · exact .none
    · refine .bind fun fields hfields => ?_
      split
      · refine .bind fun properties hproperties => .some ?_
        rw [numbers, numbersInProperties_eq_flatMap]
        -- A property is a small record, and its numbers are those of its value.
        refine (Sourced.listOf ?_).withDefault rfl hfields (by simp) properties hproperties
        intro j
        refine .bind fun fields hfields => ?_
        split
        · refine .bind fun key _ => .bind fun value hvalue => .some ?_
          exact ih.required hfields (by simp) value hvalue
        · exact .none
      · exact .none
    · exact draws_leaf "name" Json.string? (.parameter · l) fun _ => rfl
    · exact draws_leaf "name" Json.string? (.variable · l) fun _ => rfl
    · exact draws_leaf "name" Json.string? (.system · l) fun _ => rfl
    · refine .bind fun fields hfields => ?_
      split
      · exact .bind fun _ _ => .bind fun _ _ => .some (List.nil_subset _)
      · exact .none
    · refine .bind fun fields hfields => ?_
      split
      · refine .bind fun op _ => .bind fun left hleft => .bind fun right hright => .some ?_
        exact List.append_subset.mpr ⟨ih.required hfields (by simp) left hleft,
          ih.required hfields (by simp) right hright⟩
      · exact .none
    · refine .bind fun fields hfields => ?_
      split
      · refine .bind fun op _ => .bind fun operand hoperand => .some ?_
        exact ih.required hfields (by simp) operand hoperand
      · exact .none
    · exact .none

theorem sourced_ofJson? : Sourced numbers ofJson? := fun j => sourced_read? j.depth j

end Expr

/-! ## Times -/

namespace TimeExpr

/-- The amounts of a time expression, from left to right. -/
def numbers : TimeExpr → List Float
  | .literal value _ _ | .relative value _ _ => [value]
  | .binary _ left right _ => numbers left ++ numbers right
  | .reference _ _ => []

theorem sourced_amount? : Sourced (fun amount => [amount.1]) amount? := by
  intro j
  refine .bind fun fields hfields => ?_
  split
  · refine .bind fun value hvalue => .bind fun unit _ => .some ?_
    exact Sourced.number.required hfields (by simp) value hvalue
  · exact .none

theorem sourced_read? : ∀ budget : Nat, Sourced numbers (read? budget) := by
  intro budget
  induction budget with
  | zero => exact fun _ => .none
  | succ budget ih =>
    intro j
    refine .bind fun found hfound => ?_
    obtain ⟨kind, l, record⟩ := found
    obtain rfl := Json.located?_eq_some hfound
    dsimp only
    split
    · refine .bind fun amount hamount => .some ?_
      exact sourced_amount? _ amount hamount
    · refine .bind fun amount hamount => .some ?_
      exact sourced_amount? _ amount hamount
    · refine .bind fun fields hfields => ?_
      split
      · refine .bind fun op _ => .bind fun left hleft => .bind fun right hright => .some ?_
        exact List.append_subset.mpr ⟨ih.required hfields (by simp) left hleft,
          ih.required hfields (by simp) right hright⟩
      · exact .none
    · refine .bind fun fields _ => ?_
      split
      · exact .bind fun _ _ => .some (List.nil_subset _)
      · exact .none
    · exact .none

theorem sourced_ofJson? : Sourced numbers ofJson? := fun j => sourced_read? j.depth j

end TimeExpr

/-! ## Statements -/

def Declaration.numbers (d : Declaration) : List Float := d.value.numbers

theorem Declaration.sourced_ofJson? : Sourced numbers ofJson? := by
  intro j
  refine .bind fun fields hfields => ?_
  split
  · refine .bind fun name _ => .bind fun value hvalue => .bind fun l _ => .some ?_
    exact Expr.sourced_ofJson?.required hfields (by simp) value hvalue
  · exact .none

def Call.numbers (c : Call) : List Float := c.arguments.flatMap Expr.numbers

theorem Call.sourced_ofJson? : Sourced numbers ofJson? := by
  intro j
  refine .bind fun fields hfields => ?_
  split
  · refine .bind fun name _ => .bind fun arguments harguments => .bind fun l _ => .some ?_
    exact Expr.sourced_ofJson?.listOf.withDefault rfl hfields (by simp) arguments harguments
  · exact .none

namespace Stmt

mutual

/-- The numbers of a statement, those of its bodies included. -/
def numbers : Stmt → List Float
  | .call c => c.numbers
  | .branch condition thenBody elseBody _ =>
    condition.numbers ++ (numbersIn thenBody ++ numbersInElse elseBody)
  | .loop _ collection body _ => collection.numbers ++ numbersIn body
  | .declaration d => d.numbers
  | .breakLoop _ | .continueLoop _ => []

def numbersIn : List Stmt → List Float
  | [] => []
  | s :: rest => numbers s ++ numbersIn rest

def numbersInElse : Option (List Stmt) → List Float
  | none => []
  | some body => numbersIn body

end

theorem numbersIn_eq_flatMap (body : List Stmt) : numbersIn body = body.flatMap numbers := by
  induction body with
  | nil => rfl
  | cons s body ih => rw [numbersIn, ih, List.flatMap_cons]

theorem numbersInElse_eq_flatMap (elseBody : Option (List Stmt)) :
    numbersInElse elseBody = elseBody.toList.flatMap (·.flatMap numbers) := by
  cases elseBody with
  | none => rfl
  | some body => simp [numbersInElse, numbersIn_eq_flatMap]

/-- A body is read as a list of statements with one level less to go, so its numbers are known by
the induction on the budget. A branch that has no second body has no numbers there. -/
theorem sourced_read? :
    ∀ (budget : Nat) (nested : Bool), Sourced numbers (read? budget nested) := by
  intro budget
  induction budget with
  | zero => exact fun _ _ => .none
  | succ budget ih =>
    intro nested j
    refine .bind fun found hfound => ?_
    obtain ⟨kind, record⟩ := found
    refine .of_tagged? hfound ?_
    -- Statements inside a body are always nested ones.
    have hbody := (ih true).listOf
    dsimp only
    split
    · refine .bind fun c hc => .some ?_
      exact Call.sourced_ofJson? _ c hc
    · refine .bind fun fields hfields => ?_
      split
      · refine .bind fun condition hcondition => .bind fun thenBody hthen =>
          .bind fun elseBody helse => .bind fun l _ => .some ?_
        rw [numbers, numbersIn_eq_flatMap, numbersInElse_eq_flatMap]
        simp only [List.append_subset]
        exact ⟨Expr.sourced_ofJson?.required hfields (by simp) condition hcondition,
          hbody.withDefault rfl hfields (by simp) thenBody hthen,
          hbody.optional hfields (by simp) elseBody helse⟩
      · exact .none
    · refine .bind fun fields hfields => ?_
      split
      · refine .bind fun item _ => .bind fun collection hcollection =>
          .bind fun body hread => .bind fun l _ => .some ?_
        rw [numbers, numbersIn_eq_flatMap, List.append_subset]
        exact ⟨Expr.sourced_ofJson?.required hfields (by simp) collection hcollection,
          hbody.withDefault rfl hfields (by simp) body hread⟩
      · exact .none
    · refine .bind fun d hd => .some ?_
      exact Declaration.sourced_ofJson? _ d hd
    · refine .bind fun fields _ => ?_
      split
      · exact .bind fun _ _ => .some (List.nil_subset _)
      · exact .none
    · refine .bind fun fields _ => ?_
      split
      · exact .bind fun _ _ => .some (List.nil_subset _)
      · exact .none
    · exact .none

theorem sourced_ofJson? (nested : Bool) : Sourced numbers (ofJson? nested) :=
  fun j => sourced_read? j.depth nested j

/-- A body that is left out is read as an empty one. -/
theorem draws_listOfField? {names : List String} {j : Json} {fields : List (Option Json)}
    {field : Option Json} (hfields : j.fields? names = some fields) (hfield : field ∈ fields) :
    Draws j numbersIn (listOfField? field) := by
  rw [show numbersIn = (·.flatMap numbers) from funext numbersIn_eq_flatMap]
  exact (sourced_ofJson? true).listOf.withDefault rfl hfields hfield

end Stmt

/-! ## Actions -/

def ActionBody.numbers : ActionBody → List Float
  | regular operations => Stmt.numbersIn operations
  | endable start finish => Stmt.numbersIn start ++ Stmt.numbersIn finish

theorem ActionBody.sourced_ofJson? (nested : Bool) : Sourced numbers (ofJson? nested) := by
  intro j
  refine .bind fun found hfound => ?_
  obtain ⟨kind, record⟩ := found
  refine .of_tagged? hfound ?_
  dsimp only
  split
  · refine .bind fun fields hfields => ?_
    split
    · refine .bind fun operations hoperations => .some ?_
      exact Stmt.draws_listOfField? hfields (by simp) operations hoperations
    · exact .none
  · refine .bind fun fields hfields => ?_
    split
    · refine .bind fun start hstart => .bind fun finish hfinish => .some ?_
      exact List.append_subset.mpr ⟨Stmt.draws_listOfField? hfields (by simp) start hstart,
        Stmt.draws_listOfField? hfields (by simp) finish hfinish⟩
    · exact .none
  · exact .none

def Action.numbers (a : Action) : List Float := a.body.numbers

theorem Action.sourced_ofJson? (nested : Bool) : Sourced numbers (ofJson? nested) := by
  intro j
  refine .bind fun fields hfields => ?_
  split
  · refine .bind fun name _ => .bind fun parameters _ => .bind fun body hbody =>
      .bind fun l _ => .some ?_
    exact (ActionBody.sourced_ofJson? nested).required hfields (by simp) body hbody
  · exact .none

def EventAction.numbers (a : EventAction) : List Float := Stmt.numbersIn a.operations

theorem EventAction.sourced_ofJson? : Sourced numbers ofJson? := by
  intro j
  refine .bind fun fields hfields => ?_
  split
  · refine .bind fun name _ => .bind fun eventName _ => .bind fun eventTopic _ =>
      .bind fun parameters _ => .bind fun operations hoperations => .bind fun l _ => .some ?_
    exact Stmt.draws_listOfField? hfields (by simp) operations hoperations
  · exact .none

/-! ## Timelines -/

def TimelineAction.numbers : TimelineAction → List Float
  | inline start finish => Stmt.numbersIn start ++ Stmt.numbersIn finish
  | named call => call.numbers

theorem TimelineAction.sourced_ofJson? : Sourced numbers ofJson? := by
  intro j
  refine .bind fun found hfound => ?_
  obtain ⟨kind, record⟩ := found
  refine .of_tagged? hfound ?_
  dsimp only
  split
  · refine .bind fun fields hfields => ?_
    split
    · refine .bind fun start hstart => .bind fun finish hfinish => .some ?_
      exact List.append_subset.mpr ⟨Stmt.draws_listOfField? hfields (by simp) start hstart,
        Stmt.draws_listOfField? hfields (by simp) finish hfinish⟩
    · exact .none
  · refine .bind fun fields hfields => ?_
    split
    · refine .bind fun call hcall => .some ?_
      exact Call.sourced_ofJson?.required hfields (by simp) call hcall
    · exact .none
  · exact .none

def SequenceItem.numbers (item : SequenceItem) : List Float :=
  item.call.numbers ++ item.duration.numbers

theorem SequenceItem.sourced_ofJson? : Sourced numbers ofJson? := by
  intro j
  refine .bind fun fields hfields => ?_
  split
  · refine .bind fun call hcall => .bind fun duration hduration => .bind fun l _ => .some ?_
    exact List.append_subset.mpr ⟨Call.sourced_ofJson?.required hfields (by simp) call hcall,
      TimeExpr.sourced_ofJson?.required hfields (by simp) duration hduration⟩
  · exact .none

namespace TimelineEvent

def numbers : TimelineEvent → List Float
  | timed start finish action _ => (start.numbers ++ finish.numbers) ++ action.numbers
  | sequence items _ => items.flatMap SequenceItem.numbers
  | stagger delay items action duration _ =>
    delay.numbers ++ (items.numbers ++ (action.numbers ++ duration.numbers))

/-- The two ends of an event with times stand in a record of their own. -/
theorem sourced_range? : Sourced (fun range => range.1.numbers ++ range.2.numbers) range? := by
  intro j
  refine .bind fun fields hfields => ?_
  split
  · refine .bind fun start hstart => .bind fun finish hfinish => .some ?_
    exact List.append_subset.mpr ⟨TimeExpr.sourced_ofJson?.required hfields (by simp) start hstart,
      TimeExpr.sourced_ofJson?.required hfields (by simp) finish hfinish⟩
  · exact .none

theorem sourced_ofJson? (nested : Bool) : Sourced numbers (ofJson? nested) := by
  intro j
  refine .bind fun found hfound => ?_
  obtain ⟨kind, record⟩ := found
  refine .of_tagged? hfound ?_
  dsimp only
  split
  · refine .bind fun fields hfields => ?_
    split
    · refine .bind fun range hrange => .bind fun action haction => .bind fun l _ => .some ?_
      exact List.append_subset.mpr ⟨sourced_range?.required hfields (by simp) range hrange,
        TimelineAction.sourced_ofJson?.required hfields (by simp) action haction⟩
    · exact .none
  · refine .bind fun fields hfields => ?_
    split
    · refine .bind fun items hitems => .bind fun l _ => .some ?_
      exact SequenceItem.sourced_ofJson?.listOf.withDefault rfl hfields (by simp) items hitems
    · exact .none
  · refine .bind fun fields hfields => ?_
    split
    · refine .bind fun delay hdelay => .bind fun items hitems => .bind fun action haction =>
        .bind fun duration hduration => .bind fun l _ => .some ?_
      simp only [numbers, List.append_subset]
      exact ⟨TimeExpr.sourced_ofJson?.required hfields (by simp) delay hdelay,
        Expr.sourced_ofJson?.required hfields (by simp) items hitems,
        TimelineAction.sourced_ofJson?.required hfields (by simp) action haction,
        TimeExpr.sourced_ofJson?.required hfields (by simp) duration hduration⟩
    · exact .none
  · exact .none

end TimelineEvent

def Timeline.numbers (t : Timeline) : List Float := t.events.flatMap TimelineEvent.numbers

theorem Timeline.sourced_ofJson? (nested : Bool) : Sourced numbers (ofJson? nested) := by
  intro j
  refine .bind fun fields hfields => ?_
  split
  · refine .bind fun name _ => .bind fun selector _ => .bind fun provider _ =>
      .bind fun source _ => .bind fun events hevents => .bind fun l _ => .some ?_
    exact (TimelineEvent.sourced_ofJson? nested).listOf.withDefault rfl hfields (by simp) events
      hevents
  · exact .none

/-! ## Programs and libraries -/

def Element.numbers : Element → List Float
  | assetImport _ | libraryImport _ => []
  | declaration d => d.numbers
  | action a => a.numbers
  | eventAction a => a.numbers
  | timeline t => t.numbers

theorem Element.sourced_ofJson? : Sourced numbers ofJson? := by
  intro j
  refine .bind fun found hfound => ?_
  obtain ⟨kind, record⟩ := found
  refine .of_tagged? hfound ?_
  dsimp only
  split
  · exact .bind fun _ _ => .some (List.nil_subset _)
  · exact .bind fun _ _ => .some (List.nil_subset _)
  · exact .bind fun d hd => .some (Declaration.sourced_ofJson? _ d hd)
  · exact .bind fun a ha => .some (Action.sourced_ofJson? true _ a ha)
  · exact .bind fun a ha => .some (EventAction.sourced_ofJson? _ a ha)
  · exact .bind fun t ht => .some (Timeline.sourced_ofJson? true _ t ht)
  · exact .none

/-- The numbers of a program, in source order. -/
def Program.numbers (p : Program) : List Float := p.elements.flatMap Element.numbers

/-- **Reading a program makes up no number.** Every number in it stands in the value that was read,
so a program that was read from finite numbers has none but finite ones. -/
theorem Program.sourced_ofJson? : Sourced numbers ofJson? := by
  intro j
  refine .bind fun fields hfields => ?_
  split
  · refine .bind fun elements helements => .bind fun l _ => .some ?_
    exact Element.sourced_ofJson?.listOf.withDefault rfl hfields (by simp) elements helements
  · exact .none

/-- The numbers of a library, in source order. -/
def Library.numbers (l : Library) : List Float := l.actions.flatMap Action.numbers

/-- **Reading a library makes up no number.** The argument is that of programs, for the fields that
a library has. -/
theorem Library.sourced_ofJson? : Sourced numbers ofJson? := by
  intro j
  refine .bind fun fields hfields => ?_
  split
  · refine .bind fun name _ => .bind fun imports _ => .bind fun actions hactions => .some ?_
    exact (Action.sourced_ofJson? false).listOf.withDefault rfl hfields (by simp) actions hactions
  · exact .none

end Cuesheet
