import Cuesheet.Proofs.References

/-!
# Variables that are set at run time

A declaration that does not fold is lowered to an operation that sets a variable of the engine, and
`@name` behind it to the path of that variable. The path is made of the name alone. So a declaration
inside a branch or a loop sets the same variable as one of that name outside, and code behind the
block can read what was set inside of it, although the scope of the block has been left.

`Stmt.ReadsSlot` lists the references that are lowered to the path of a variable, and
`Stmt.Isolated` says that none of them stands behind a block that sets it.
-/

set_option autoImplicit false

namespace Cuesheet

/-! ## Paths -/

namespace DataPath

theorem localVariable_inj {name other : String} (h : localVariable name = localVariable other) :
    name = other :=
  (String.append_right_inj _).mp h

theorem toList_localVariable (name : String) :
    (localVariable name).toList = "$scope.variables.".toList ++ name.toList :=
  String.toList_append

/-- A path that parts from those of variables before its end is none of them, whatever follows. Two
starts of one text are starts of each other, and neither of these two is. -/
theorem append_ne_localVariable (start rest name : String)
    (h : ¬ start.toList <+: "$scope.variables.".toList)
    (h' : ¬ "$scope.variables.".toList <+: start.toList) :
    start ++ rest ≠ localVariable name := by
  intro heq
  have hstart : start.toList <+: (start ++ rest).toList := by
    rw [String.toList_append]
    exact List.prefix_append _ _
  have hslot : "$scope.variables.".toList <+: (start ++ rest).toList := by
    rw [heq, toList_localVariable]
    exact List.prefix_append _ _
  exact (List.prefix_or_prefix_of_prefix hstart hslot).elim h h'

/-- The paths of loop items, parameters, event arguments and globals all part from those of
variables early on. -/
theorem loopItem_ne (name : String) : loopItem ≠ localVariable name := by
  have h := append_ne_localVariable loopItem "" name (by decide) (by decide)
  rwa [String.append_empty] at h

theorem parameter_ne (other name : String) : parameter other ≠ localVariable name :=
  append_ne_localVariable "$operationdata." other name (by decide) (by decide)

theorem eventArgument_ne (index : Nat) (name : String) :
    eventArgument index ≠ localVariable name := by
  unfold eventArgument
  simp only [String.append_assoc]
  exact append_ne_localVariable "$operationdata.eventArgs[" _ name (by decide) (by decide)

theorem globalVariable_ne (other name : String) : globalVariable other ≠ localVariable name :=
  append_ne_localVariable "$globaldata." other name (by decide) (by decide)

end DataPath

/-! ## The last declaration -/

namespace Scope

/-- The last declaration of the name among the steps is set at run time. -/
def DeclaresRuntime (scope : Scope) (steps : List Step) (name : String) : Prop :=
  ∃ before d behind, steps = before ++ .declare d :: behind ∧ d.name = name ∧
    (∀ step ∈ behind, ¬ step.Declares name) ∧ (scope.follow before).fold? d.value = none

/-- Whether a name is set at run time, in terms of what the scope holds under it. The lemmas on
declarations are about the latter. -/
theorem holding?_eq_runtime_iff {scope : Scope} {name : String} :
    scope.holding? name = some .runtime ↔ scope.isRuntimeLocal name = true := by
  unfold holding?
  split <;> simp_all

theorem exists_last_declaration {steps : List Step} {name : String}
    (h : ∃ step ∈ steps, step.Declares name) :
    ∃ before d behind, steps = before ++ .declare d :: behind ∧ d.name = name ∧
      ∀ step ∈ behind, ¬ step.Declares name := by
  induction steps with
  | nil => simp at h
  | cons step steps ih =>
    by_cases hsteps : ∃ step ∈ steps, step.Declares name
    · obtain ⟨before, d, behind, rfl, hd, hbehind⟩ := ih hsteps
      exact ⟨step :: before, d, behind, rfl, hd, hbehind⟩
    · obtain ⟨other, hother, hdeclares⟩ := h
      rcases List.mem_cons.mp hother with rfl | hother
      · cases other with
        | declare d =>
          exact ⟨[], d, steps, rfl, hdeclares, fun step hstep h => hsteps ⟨step, hstep, h⟩⟩
        | enterBlock | enterLoop _ | withStaggerItem _ => exact hdeclares.elim
      · exact absurd ⟨other, hother, hdeclares⟩ hsteps

/-- A name is set at run time behind some steps if its last declaration among them is, or if none of
them declares it and it was so before. -/
theorem isRuntimeLocal_follow_iff {scope : Scope} {steps : List Step} {name : String} :
    (scope.follow steps).isRuntimeLocal name = true ↔
      scope.DeclaresRuntime steps name ∨
        (∀ step ∈ steps, ¬ step.Declares name) ∧ scope.isRuntimeLocal name = true := by
  by_cases hsteps : ∃ step ∈ steps, step.Declares name
  · obtain ⟨before, d, behind, rfl, rfl, hbehind⟩ := exists_last_declaration hsteps
    rw [← holding?_eq_runtime_iff, holding?_declared scope before hbehind]
    constructor
    · intro hheld
      refine .inl ⟨before, d, behind, rfl, rfl, hbehind, ?_⟩
      unfold held at hheld
      split at hheld
      · cases hheld
      · assumption
    · rintro (⟨before', d', behind', hsplit, hname, hbehind', hfold⟩ | ⟨hnone, -⟩)
      · -- Two last declarations of one name leave the same thing.
        have hheld := holding?_declared scope before' (hname ▸ hbehind')
        rw [hname, ← hsplit, holding?_declared scope before hbehind] at hheld
        rw [hheld, held, hfold]
      · obtain ⟨step, hstep, h⟩ := hsteps
        exact absurd h (hnone step hstep)
  · have hnone : ∀ step ∈ steps, ¬ step.Declares name := fun step hstep h => hsteps ⟨step, hstep, h⟩
    rw [← holding?_eq_runtime_iff, holding?_follow hnone, holding?_eq_runtime_iff]
    constructor
    · exact fun h => .inr ⟨hnone, h⟩
    · rintro (⟨before, d, behind, rfl, hname, -⟩ | ⟨-, h⟩)
      · exact absurd hname (hnone (.declare d) (by simp))
      · exact h

end Scope

/-! ## What is lowered to the path of a variable -/

namespace Reference

/-- The reference comes to the path of the variable without being a reference to it: the path is
written out, or it is the text of a constant or of the element of a stagger. -/
def Spells (scope : Scope) (name : String) : Reference → Prop
  | chain root properties _ => DataPath.chain root properties = DataPath.localVariable name
  | system property _ => scope.lowerSystem property = .string (DataPath.localVariable name)
  | «variable» other _ => scope.constant? other = some (.string (DataPath.localVariable name))
  | parameter _ _ => False

/-- No bare name is lowered to the path of a variable. -/
theorem lower_parameter_ne (scope : Scope) (other name : String) (l : Location) :
    Expr.lower scope (.parameter other l) ≠ .ok (.string (DataPath.localVariable name)) := by
  change scope.lowerParameter other l ≠ _
  unfold Scope.lowerParameter
  split
  · simp [DataPath.loopItem_ne]
  · simp [DataPath.eventArgument_ne]
  · simp [DataPath.parameter_ne]
  · simp
  · rename_i item hitem
    exact absurd hitem (scope.identifier?_ne_staggerItem other item)
  · split <;> simp

/-- A variable becomes the path of a variable if it is one, or if it is a constant whose text
happens to be that path. -/
theorem lower_variable_eq_iff (scope : Scope) (other name : String) (l : Location) :
    Expr.lower scope (.variable other l) = .ok (.string (DataPath.localVariable name)) ↔
      scope.constant? other = some (.string (DataPath.localVariable name)) ∨
        other = name ∧ scope.loopItem? ≠ some name ∧ scope.isRuntimeLocal name = true := by
  have hfold : scope.fold? (.variable other l) = scope.constant? other := rfl
  rw [Expr.lower, hfold]
  cases hconstant : scope.constant? other with
  | some value =>
    -- A constant is not set at run time, so it can only spell the path.
    have hruntime : scope.isRuntimeLocal other ≠ true := by
      intro h
      simp [Scope.constant?, h] at hconstant
    constructor
    · intro h
      exact .inl (congrArg some (Except.ok.inj h))
    · rintro (h | ⟨rfl, -, h⟩)
      · rw [Option.some.inj h]
      · exact absurd h hruntime
  | none =>
    -- Without a value there are three paths that it can become, and only one is that of a variable.
    change scope.lowerVariable other l = _ ↔ _
    unfold Scope.lowerVariable
    constructor
    · intro h
      split at h
      · exact absurd (Json.string.inj (Except.ok.inj h)) (DataPath.loopItem_ne name)
      · split at h
        · rename_i hitem hruntime
          obtain rfl := DataPath.localVariable_inj (Json.string.inj (Except.ok.inj h))
          exact .inr ⟨rfl, hitem, hruntime⟩
        · split at h
          · exact absurd (Json.string.inj (Except.ok.inj h)) (DataPath.globalVariable_ne other name)
          · cases h
    · rintro (h | ⟨rfl, hitem, hruntime⟩)
      · cases h
      · rw [if_neg hitem, if_pos hruntime]

end Reference

/-! ## Behind a block -/

namespace Place

/-- The same place with more statements before it. -/
def after (first : List Stmt) : Place → Place
  | top before behind => top (first ++ before) behind
  | inside before frame inner behind => inside (first ++ before) frame inner behind

theorem fill_after (first : List Stmt) (s : Stmt) (place : Place) :
    (place.after first).fill s = first ++ place.fill s := by
  cases place <;> exact List.append_assoc ..

theorem steps_after (first : List Stmt) (place : Place) :
    (place.after first).steps = Stmt.stepsIn first ++ place.steps := by
  cases place <;> simp [after, steps, Stmt.stepsIn]

end Place

namespace Stmt

/-- What stands behind a block stands in the list with the block as well, at the same distance from
it. -/
theorem RefersIn.after {body : List Stmt} {steps : List Scope.Step} {r : Reference}
    (h : RefersIn body steps r) (first : List Stmt) :
    RefersIn (first ++ body) (stepsIn first ++ steps) r := by
  obtain ⟨place, s, rfl, rfl, hr⟩ := h
  exact ⟨place.after first, s, (place.fill_after first s).symm, place.steps_after first, hr⟩

/-- One of the operations of the statement sets the variable. -/
def Sets (here : Surroundings) (scope : Scope) (s : Stmt) (name : String) : Prop :=
  ∃ ops, s.lower here scope = .ok ops ∧
    ∃ op ∈ ops, op.name = "setVariable" ∧ op.data.get? "name" = some (.string name)

/-- The references that are lowered to the path of a variable, `steps` away from the scope in which
a block stands. -/
inductive ReadsSlot (scope : Scope) (name : String) (steps : List Scope.Step) : Reference → Prop
  | spelled {r : Reference} (h : r.Spells (scope.follow steps) name) :
      ReadsSlot scope name steps r
  /-- The name has been declared again since. -/
  | declaredAgain {l : Location} (hitem : (scope.follow steps).loopItem? ≠ some name)
      (h : scope.DeclaresRuntime steps name) : ReadsSlot scope name steps (.variable name l)
  /-- The name was declared before the block, and it has not been declared since. -/
  | declaredBefore {l : Location} (hitem : (scope.follow steps).loopItem? ≠ some name)
      (hnone : ∀ step ∈ steps, ¬ step.Declares name) (h : scope.isRuntimeLocal name = true) :
      ReadsSlot scope name steps (.variable name l)

/-- **The references that read a variable are those of `ReadsSlot`.** Lowering looks at the scope as
it is when it gets there; this says which statements on the way have made it so. -/
theorem lower_eq_slot_iff (scope : Scope) (name : String) (steps : List Scope.Step)
    (r : Reference) :
    r.expr.lower (scope.follow steps) = .ok (.string (DataPath.localVariable name)) ↔
      ReadsSlot scope name steps r := by
  cases r with
  | parameter other l =>
    constructor
    · exact fun h => absurd h (Reference.lower_parameter_ne _ other name l)
    · rintro (h | _ | _)
      exact h.elim
  | system property l =>
    constructor
    · exact fun h => .spelled (Except.ok.inj h)
    · rintro (h | _ | _)
      exact congrArg Except.ok h
  | chain root properties l =>
    constructor
    · exact fun h => .spelled (Json.string.inj (Except.ok.inj h))
    · rintro (h | _ | _)
      exact congrArg (Except.ok ∘ Json.string) h
  | «variable» other l =>
    -- Only here the steps matter: the name is set at run time because of a declaration among them,
    -- or because it was before.
    refine (Reference.lower_variable_eq_iff _ other name l).trans ?_
    rw [Scope.isRuntimeLocal_follow_iff]
    constructor
    · rintro (h | ⟨rfl, hitem, h | ⟨hnone, h⟩⟩)
      · exact .spelled h
      · exact .declaredAgain hitem h
      · exact .declaredBefore hitem hnone h
    · rintro (h | ⟨hitem, h⟩ | ⟨hitem, hnone, h⟩)
      · exact .inl h
      · exact .inr ⟨rfl, hitem, .inl h⟩
      · exact .inr ⟨rfl, hitem, .inr ⟨hnone, h⟩⟩

/-- If a block sets a variable, then no reference behind it is lowered to the path of that variable.
-/
def Isolated (here : Surroundings) (scope : Scope) (before : List Stmt) (block : Stmt)
    (behind : List Stmt) (name : String) : Prop :=
  Sets here (scope.follow (stepsIn before)) block name →
    ∀ steps r, RefersIn behind steps r →
      r.expr.lower (scope.follow (stepsIn (before ++ [block]) ++ steps)) ≠
        .ok (.string (DataPath.localVariable name))

theorem follow_block (scope : Scope) (before : List Stmt) (frame : Frame) (body : List Stmt)
    (steps : List Scope.Step) :
    scope.follow (stepsIn (before ++ [frame.around body]) ++ steps) =
      (scope.follow (stepsIn before)).follow steps := by
  simp only [stepsIn, List.flatMap_append, List.flatMap_singleton, Place.steps_around,
    List.append_nil, Scope.follow_append]

/-- A declaration in a block that is set at run time sets the variable of its name. It may stand at
any depth, so this is about a place in the body. -/
theorem sets_of_declaration {here : Surroundings} {scope : Scope} {frame : Frame} {place : Place}
    {d : Declaration} {ops : List DraftOperation}
    (h : (frame.around (place.fill (.declaration d))).lower here scope = .ok ops)
    (hfold : ((scope.take frame.step).follow place.steps).fold? d.value = none) :
    Sets here scope (frame.around (place.fill (.declaration d))) d.name := by
  refine ⟨ops, h, ?_⟩
  rw [Frame.lower_around, Place.lowerBlock_fill] at h
  obtain ⟨start, -, h⟩ := Except.bind_ok h
  obtain ⟨inner, hinner, h⟩ := Except.bind_ok h
  obtain ⟨finish, -, h⟩ := Except.bind_ok h
  obtain ⟨first, -, hinner⟩ := Except.bind_ok hinner
  obtain ⟨own, hown, hinner⟩ := Except.bind_ok hinner
  obtain ⟨last, -, hinner⟩ := Except.bind_ok hinner
  obtain ⟨value, -, hown⟩ := Except.bind_ok hown
  -- The operations of the declaration stand somewhere among those of the block.
  rw [hfold] at hown
  cases hown
  cases hinner
  cases h
  exact ⟨⟨d.location, "setVariable", [("name", .string d.name), ("value", value)]⟩, by simp, rfl,
    rfl⟩

/-- **What a block sets is read behind it wherever the name means a variable.** In a list that is
lowered, every declaration of a block that does not fold sets the variable of its name, and every
reference behind the block can be lowered. It is lowered to the path of that variable if the path is
written out, or if the name was set at run time outside of the block as well. If it was declared
again behind the block, the new value has replaced the one from inside. If it was declared before
the block and not since, the value from inside the block is read in its place. -/
theorem isolated_iff (here : Surroundings) (scope : Scope) (before : List Stmt) (frame : Frame)
    (body behind : List Stmt) {ops : List DraftOperation}
    (h : lowerBlock here scope (before ++ frame.around body :: behind) = .ok ops) :
    (∀ place d, body = Place.fill (.declaration d) place →
      (((scope.follow (stepsIn before)).take frame.step).follow place.steps).fold? d.value = none →
      Sets here (scope.follow (stepsIn before)) (frame.around body) d.name) ∧
    (∀ steps r, RefersIn behind steps r →
      r.Lowers (scope.follow (stepsIn (before ++ [frame.around body]) ++ steps))) ∧
    ∀ name, Isolated here scope before (frame.around body) behind name ↔
      (Sets here (scope.follow (stepsIn before)) (frame.around body) name →
        ∀ steps r, RefersIn behind steps r →
          ¬ ReadsSlot (scope.follow (stepsIn before)) name steps r) := by
  refine ⟨?_, ?_, ?_⟩
  · rintro place d rfl hfold
    rw [lowerBlock_append] at h
    obtain ⟨first, -, h⟩ := Except.bind_ok h
    obtain ⟨second, hsecond, -⟩ := Except.bind_ok h
    obtain ⟨inner, _, hinner, -⟩ := lowerBlock_cons_ok hsecond
    exact sets_of_declaration hinner hfold
  · intro steps r hr
    rw [← List.singleton_append, ← List.append_assoc] at h
    exact (hr.after (before ++ [frame.around body])).lowers h
  · intro name
    refine imp_congr_right fun _ => forall_congr' fun steps => forall_congr' fun r =>
      imp_congr_right fun _ => not_congr ?_
    -- Behind the block the scope is the one in front of it.
    rw [follow_block]
    exact lower_eq_slot_iff _ name steps r

end Stmt

namespace Counter

def here : Surroundings := ⟨⟨[], []⟩, .program⟩

/-- A count that is set at run time. -/
def declaration (n : UInt32) (property : String) : Declaration :=
  ⟨"count", .system property (.onLine n), .onLine n⟩

def frame : Frame := .inThen (.system "ready" (.onLine 2)) none (.onLine 2)

def log : Stmt := .call ⟨"log", [.variable "count" (.onLine 5)], .onLine 5⟩

end Counter

/-- The count that is declared inside the branch sets the variable of the count outside, and the
value from inside is logged behind the branch. -/
theorem Stmt.isolated_iff_counter :
    lowerBlock Counter.here (.top default) [.declaration (Counter.declaration 1 "total"),
          Counter.frame.around [.declaration (Counter.declaration 3 "step")], Counter.log] =
        .ok [
          ⟨.onLine 1, "setVariable",
            [("name", .string "count"), ("value", .string "$scope.total")]⟩,
          ⟨.onLine 2, "when", [("expression", .string "$scope.ready")]⟩,
          ⟨.onLine 3, "setVariable",
            [("name", .string "count"), ("value", .string "$scope.step")]⟩,
          ⟨.onLine 2, "endWhen", []⟩,
          ⟨.onLine 5, "log", [("logValue", .string "$scope.variables.count")]⟩] ∧
      ¬ Isolated Counter.here (.top default) [.declaration (Counter.declaration 1 "total")]
        (Counter.frame.around [.declaration (Counter.declaration 3 "step")]) [Counter.log]
        "count" := by
  refine ⟨rfl, ?_⟩
  obtain ⟨hsets, -, hisolated⟩ := isolated_iff Counter.here (.top default)
    [.declaration (Counter.declaration 1 "total")] Counter.frame
    [.declaration (Counter.declaration 3 "step")] [Counter.log] rfl
  rw [hisolated]
  intro h
  have hblock := hsets (.top [] []) (Counter.declaration 3 "step") rfl rfl
  refine h hblock [] (.variable "count" (.onLine 5)) ?_ ?_
  · exact ⟨.top [] [], Counter.log, rfl, rfl, by simp [Counter.log, references, Expr.referencesIn,
      Expr.references]⟩
  · exact .declaredBefore (by decide) (by simp) (by decide)

end Cuesheet
