import Cuesheet.Proofs.Places

/-!
# References

The references of an expression are its leaves that are not literals. An expression that is lowered
has no reference that cannot be lowered by itself in the same scope: what folds has none but
constants, and what does not fold is lowered part by part.

`Stmt.RefersIn` says where in a body a reference stands, by the steps that lead to its scope. If the
body is lowered, then so is every reference in it, in the scope of its place
(`Stmt.RefersIn.lowers`).
-/

set_option autoImplicit false

namespace Cuesheet

/-! ## How lowering fails -/

namespace Lowered

variable {α β γ : Type}

/-- The reason for which there is no result. -/
def failure? : Lowered α → Option LowerError
  | .ok _ => none
  | .error err => some err

/-- The failure and the error are the same thing. Proofs use the failure, since it can be compared
across results of different types. -/
theorem failure?_eq_some_iff {m : Lowered α} {err : LowerError} :
    m.failure? = some err ↔ m = .error err := by
  cases m <;> simp [failure?]

theorem failure?_eq_none_iff {m : Lowered α} : m.failure? = none ↔ ∃ a, m = .ok a := by
  cases m <;> simp [failure?]

@[simp] theorem failure?_pure (a : α) : failure? (pure a) = none := rfl

@[simp] theorem failure?_map (m : Lowered α) (f : α → β) : failure? (m.map f) = m.failure? := by
  cases m <;> rfl

/-- Of two steps the first to fail decides, if how the second fails does not depend on what the
first gives. -/
theorem failure?_bind {m : Lowered α} {k : α → Lowered β} {next : Option LowerError}
    (h : ∀ a, (k a).failure? = next) : failure? (m >>= k) = m.failure?.or next := by
  cases m with
  | error err => rfl
  | ok a => exact h a

@[simp] theorem failure?_bind_pure (m : Lowered α) (f : α → β) :
    failure? (m >>= fun a => pure (f a)) = m.failure? := by
  rw [failure?_bind fun a => failure?_pure (f a), Option.or_none]

theorem failure?_bind₂_pure (m : Lowered α) (n : Lowered β) (f : α → β → γ) :
    failure? (m >>= fun a => n >>= fun b => pure (f a b)) = m.failure?.or n.failure? :=
  failure?_bind fun a => failure?_bind_pure n (f a)

end Lowered

/-! ## The references of an expression -/

/-- A leaf of an expression that stands for a value from elsewhere. -/
inductive Reference where
  | parameter (name : String) (location : Location)
  | «variable» (name : String) (location : Location)
  | system (name : String) (location : Location)
  | chain (root : String) (properties : List String) (location : Location)

namespace Reference

/-- The expression that is nothing but the reference. -/
def expr : Reference → Expr
  | parameter name l => .parameter name l
  | «variable» name l => .variable name l
  | system name l => .system name l
  | chain root properties l => .chain root properties l

def Lowers (scope : Scope) (r : Reference) : Prop := ∃ value, r.expr.lower scope = .ok value

def Folds (scope : Scope) (r : Reference) : Prop := ∃ value, scope.fold? r.expr = some value

end Reference

namespace Expr

mutual

/-- The references of an expression, from left to right. -/
def references : Expr → List Reference
  | .parameter name l => [.parameter name l]
  | .variable name l => [.variable name l]
  | .system name l => [.system name l]
  | .chain root properties l => [.chain root properties l]
  | .array elements _ => referencesIn elements
  | .object properties _ => referencesInProperties properties
  | .unary _ operand _ => references operand
  | .binary _ left right _ => references left ++ references right
  | .string _ _ | .number _ _ | .boolean _ _ | .null _ => []

def referencesIn : List Expr → List Reference
  | [] => []
  | e :: rest => references e ++ referencesIn rest

def referencesInProperties : List (String × Expr) → List Reference
  | [] => []
  | (_, e) :: rest => references e ++ referencesInProperties rest

end

/-! ## What folds -/

/-- Folding is tried first at every node, for values and for operands alike. -/
theorem lower_of_fold? {scope : Scope} {e : Expr} {value : Json} (h : scope.fold? e = some value) :
    e.lower scope = .ok value := by
  cases e <;> rw [lower, h]

theorem operand_of_fold? {scope : Scope} {e : Expr} {value : Json}
    (h : scope.fold? e = some value) : e.operand scope = .ok value.compact := by
  cases e <;> rw [operand, h]

mutual

/-- **What folds has only references that fold.** So folding does not hide a reference that could
not be lowered by itself. A reference that folds is one to a constant, as all others are only known
when the program runs. -/
theorem folds_of_fold? {scope : Scope} : ∀ (e : Expr) {value : Json},
    scope.fold? e = some value → ∀ r ∈ references e, r.Folds scope
  | .string _ _, _, _, _, hr | .number _ _, _, _, _, hr | .boolean _ _, _, _, _, hr
  | .null _, _, _, _, hr => absurd hr List.not_mem_nil
  | .parameter _ _, _, h, _, _ | .system _ _, _, h, _, _ | .chain _ _ _, _, h, _, _ => by cases h
  | .variable name l, value, h, r, hr => by
    rw [references, List.mem_singleton] at hr
    exact hr ▸ ⟨value, h⟩
  | .array elements _, _, h, r, hr => by
    obtain ⟨values, hvalues, -⟩ := Option.map_eq_some_iff.mp h
    exact folds_of_foldList? elements hvalues r hr
  | .object properties _, _, h, r, hr => by
    obtain ⟨entries, hentries, -⟩ := Option.map_eq_some_iff.mp h
    exact folds_of_foldProperties? properties hentries r hr
  -- An operator folds only if its operands do.
  | .unary _ operand _, _, h, r, hr => by
    obtain ⟨value, hvalue, -⟩ := Option.bind_eq_some_iff.mp h
    exact folds_of_fold? operand hvalue r hr
  | .binary _ left right _, _, h, r, hr => by
    obtain ⟨first, hfirst, h⟩ := Option.bind_eq_some_iff.mp h
    obtain ⟨second, hsecond, -⟩ := Option.bind_eq_some_iff.mp h
    rcases List.mem_append.mp hr with hr | hr
    · exact folds_of_fold? left hfirst r hr
    · exact folds_of_fold? right hsecond r hr

theorem folds_of_foldList? {scope : Scope} : ∀ (elements : List Expr) {values : List Json},
    foldList? scope.constant? elements = some values →
    ∀ r ∈ referencesIn elements, r.Folds scope
  | e :: rest, _, h, r, hr => by
    obtain ⟨value, hvalue, h⟩ := Option.bind_eq_some_iff.mp h
    obtain ⟨values, hvalues, -⟩ := Option.bind_eq_some_iff.mp h
    rcases List.mem_append.mp hr with hr | hr
    · exact folds_of_fold? e hvalue r hr
    · exact folds_of_foldList? rest hvalues r hr

theorem folds_of_foldProperties? {scope : Scope} :
    ∀ (properties : List (String × Expr)) {entries : List (String × Json)},
    foldProperties? scope.constant? properties = some entries →
    ∀ r ∈ referencesInProperties properties, r.Folds scope
  | (_, e) :: rest, _, h, r, hr => by
    obtain ⟨value, hvalue, h⟩ := Option.bind_eq_some_iff.mp h
    obtain ⟨entries, hentries, -⟩ := Option.bind_eq_some_iff.mp h
    rcases List.mem_append.mp hr with hr | hr
    · exact folds_of_fold? e hvalue r hr
    · exact folds_of_foldProperties? rest hentries r hr

end

theorem lowers_of_fold? {scope : Scope} (e : Expr) {value : Json}
    (h : scope.fold? e = some value) : ∀ r ∈ references e, r.Lowers scope := by
  intro r hr
  obtain ⟨found, hfound⟩ := folds_of_fold? e h r hr
  exact ⟨found, lower_of_fold? hfound⟩

/-! ## What is lowered

There are three ways to lower an expression: as a value, as an operand and as a condition. They
differ in what they give and not in how they fail. -/

/-- Inside an operator the result is a text and outside a value, and the two are made in the same
order from the same parts. -/
theorem failure?_operand (scope : Scope) (e : Expr) :
    (e.operand scope).failure? = (e.lower scope).failure? := by
  cases hfold : scope.fold? e with
  | some value =>
    rw [operand_of_fold? hfold, lower_of_fold? hfold]
    rfl
  | none =>
    cases e with
    | array _ _ | object _ _ | unary _ _ _ =>
      rw [operand, lower, hfold]
      exact (Lowered.failure?_bind_pure _ _).trans (Lowered.failure?_bind_pure _ _).symm
    | binary op left right _ =>
      rw [operand, lower, hfold]
      exact (Lowered.failure?_bind₂_pure _ _ _).trans (Lowered.failure?_bind₂_pure _ _ _).symm
    | parameter _ _ | «variable» _ _ =>
      rw [operand, lower, hfold]
      exact Lowered.failure?_map _ _
    | system _ _ | chain _ _ _ =>
      rw [operand, lower, hfold]
      exact (Lowered.failure?_pure _).trans (Lowered.failure?_pure _).symm
    -- Literals that do not fold are the error itself, in both.
    | string _ _ | number _ _ | boolean _ _ | null _ =>
      rw [operand, lower, hfold]
      rfl

/-- A condition differs from an operand only in the brackets around its outermost operator. -/
theorem failure?_condition (scope : Scope) (e : Expr) :
    (e.condition scope).failure? = (e.lower scope).failure? := by
  rw [← failure?_operand]
  cases hfold : scope.fold? e with
  | some value =>
    unfold condition
    rw [operand_of_fold? hfold, hfold]
  | none =>
    cases e with
    | binary op left right _ =>
      rw [condition, operand, hfold]
      exact (Lowered.failure?_bind₂_pure _ _ _).trans (Lowered.failure?_bind₂_pure _ _ _).symm
    | _ =>
      unfold condition
      rw [hfold]

/-- What can be lowered can also stand inside an operator. -/
theorem operand_of_lower {scope : Scope} {e : Expr} {value : Json} (h : e.lower scope = .ok value) :
    ∃ text, e.operand scope = .ok text := by
  rw [← Lowered.failure?_eq_none_iff, failure?_operand]
  exact Lowered.failure?_eq_none_iff.mpr ⟨value, h⟩

/-- A condition is an operand, apart from its brackets, and so it fails where the operand would. -/
theorem operand_of_condition {scope : Scope} {e : Expr} {text : String}
    (h : e.condition scope = .ok text) : ∃ text, e.operand scope = .ok text := by
  rw [← Lowered.failure?_eq_none_iff, failure?_operand, ← failure?_condition]
  exact Lowered.failure?_eq_none_iff.mpr ⟨text, h⟩

mutual

/-- Every reference in an operand is lowered by itself. The induction is on operands, because arrays
and objects stand in operands and operators stand in values: of the two ways to lower a part, this
is the one that all of them come back to. -/
theorem lowers_of_operand {scope : Scope} : ∀ (e : Expr) {text : String},
    e.operand scope = .ok text → ∀ r ∈ references e, r.Lowers scope
  | .string _ _, _, _, _, hr | .number _ _, _, _, _, hr | .boolean _ _, _, _, _, hr
  | .null _, _, _, _, hr => absurd hr List.not_mem_nil
  -- A reference is its own only reference, and it was lowered to make the text.
  | .parameter name l, _, h, r, hr => by
    rw [references, List.mem_singleton] at hr
    obtain ⟨value, hvalue, -⟩ := Except.map_ok (m := scope.lowerParameter name l) h
    exact hr ▸ ⟨value, hvalue⟩
  | .system name l, _, _, r, hr => by
    rw [references, List.mem_singleton] at hr
    exact hr ▸ ⟨scope.lowerSystem name, rfl⟩
  | .chain root properties l, _, _, r, hr => by
    rw [references, List.mem_singleton] at hr
    exact hr ▸ ⟨.string (DataPath.chain root properties), rfl⟩
  -- From here on the node may fold, and then its references fold as well.
  | .variable name l, _, h, r, hr => by
    cases hfold : scope.fold? (.variable name l) with
    | some value => exact lowers_of_fold? _ hfold r hr
    | none =>
      rw [references, List.mem_singleton] at hr
      rw [operand, hfold] at h
      obtain ⟨value, hvalue, -⟩ := Except.map_ok (m := scope.lowerVariable name l) h
      refine hr ▸ ⟨value, ?_⟩
      rw [Reference.expr, lower, hfold]
      exact hvalue
  | .array elements l, _, h, r, hr => by
    cases hfold : scope.fold? (.array elements l) with
    | some value => exact lowers_of_fold? _ hfold r hr
    | none =>
      rw [operand, hfold] at h
      obtain ⟨values, hvalues, -⟩ := Except.bind_ok h
      exact lowers_of_lowerList elements hvalues r hr
  | .object properties l, _, h, r, hr => by
    cases hfold : scope.fold? (.object properties l) with
    | some value => exact lowers_of_fold? _ hfold r hr
    | none =>
      rw [operand, hfold] at h
      obtain ⟨entries, hentries, -⟩ := Except.bind_ok h
      exact lowers_of_lowerProperties properties hentries r hr
  | .unary op inner l, _, h, r, hr => by
    cases hfold : scope.fold? (.unary op inner l) with
    | some value => exact lowers_of_fold? _ hfold r hr
    | none =>
      rw [operand, hfold] at h
      obtain ⟨text, htext, -⟩ := Except.bind_ok h
      exact lowers_of_operand inner htext r hr
  | .binary op left right l, _, h, r, hr => by
    cases hfold : scope.fold? (.binary op left right l) with
    | some value => exact lowers_of_fold? _ hfold r hr
    | none =>
      rw [operand, hfold] at h
      obtain ⟨first, hfirst, h⟩ := Except.bind_ok h
      obtain ⟨second, hsecond, -⟩ := Except.bind_ok h
      rcases List.mem_append.mp hr with hr | hr
      · exact lowers_of_operand left hfirst r hr
      · exact lowers_of_operand right hsecond r hr

theorem lowers_of_lowerList {scope : Scope} : ∀ (elements : List Expr) {values : List Json},
    lowerList scope elements = .ok values → ∀ r ∈ referencesIn elements, r.Lowers scope
  | e :: rest, _, h, r, hr => by
    obtain ⟨value, hvalue, h⟩ := Except.bind_ok h
    obtain ⟨values, hvalues, -⟩ := Except.bind_ok h
    -- Elements are lowered as values and not as operands, so this is not yet the induction
    -- hypothesis.
    obtain ⟨text, htext⟩ := operand_of_lower hvalue
    rcases List.mem_append.mp hr with hr | hr
    · exact lowers_of_operand e htext r hr
    · exact lowers_of_lowerList rest hvalues r hr

theorem lowers_of_lowerProperties {scope : Scope} :
    ∀ (properties : List (String × Expr)) {entries : List (String × Json)},
    lowerProperties scope properties = .ok entries →
    ∀ r ∈ referencesInProperties properties, r.Lowers scope
  | (_, e) :: rest, _, h, r, hr => by
    obtain ⟨value, hvalue, h⟩ := Except.bind_ok h
    obtain ⟨entries, hentries, -⟩ := Except.bind_ok h
    obtain ⟨text, htext⟩ := operand_of_lower hvalue
    rcases List.mem_append.mp hr with hr | hr
    · exact lowers_of_operand e htext r hr
    · exact lowers_of_lowerProperties rest hentries r hr

end

/-- **Every reference in an expression that is lowered is lowered by itself,** in the same scope. So
a scope can be asked about single references, and need not be asked about expressions. -/
theorem lowers_of_lower {scope : Scope} {e : Expr} {value : Json} (h : e.lower scope = .ok value) :
    ∀ r ∈ references e, r.Lowers scope := by
  obtain ⟨text, htext⟩ := operand_of_lower h
  exact lowers_of_operand e htext

end Expr

/-! ## What a reference is lowered to -/

namespace Scope

/-- A name without signs never means the element of a stagger; only `@@item` and `@@currentItem`
do. -/
theorem identifier?_ne_staggerItem (scope : Scope) (name : String) (item : Json) :
    scope.identifier? name ≠ some (.staggerItem item) := by
  unfold identifier?
  split
  · simp
  · split
    · simp
    · simp only [ne_eq, Option.bind_eq_bind, Option.bind_eq_some_iff, not_exists, not_and]
      intro index hindex
      split <;> simp

/-- A name without signs becomes one of three data paths, and never a value. -/
theorem of_lowerParameter {scope : Scope} {name : String} {l : Location} {value : Json}
    (h : scope.lowerParameter name l = .ok value) :
    value = .string DataPath.loopItem ∨ (∃ index, value = .string (DataPath.eventArgument index)) ∨
      value = .string (DataPath.parameter name) := by
  unfold lowerParameter at h
  split at h
  · cases h
    exact .inl rfl
  · cases h
    exact .inr (.inl ⟨_, rfl⟩)
  · cases h
    exact .inr (.inr rfl)
  · cases h
  · rename_i item hitem
    exact absurd hitem (scope.identifier?_ne_staggerItem name item)
  · split at h <;> cases h

theorem of_lowerVariable {scope : Scope} {name : String} {l : Location} {value : Json}
    (h : scope.lowerVariable name l = .ok value) :
    value = .string DataPath.loopItem ∨ value = .string (DataPath.localVariable name) ∨
      value = .string (DataPath.globalVariable name) := by
  unfold lowerVariable at h
  split at h
  · cases h
    exact .inl rfl
  split at h
  · cases h
    exact .inr (.inl rfl)
  split at h
  · cases h
    exact .inr (.inr rfl)
  · cases h

/-- The element of a stagger, if `@@name` means it here. -/
def staggerElement? (scope : Scope) (name : String) : Option Json :=
  if name = "item" ∨ name = "currentItem" then scope.staggerItem else none

/-- The element of a stagger comes first, then the item of the innermost loop. Whatever else is
named after `@@` is left to the engine. -/
theorem lowerSystem_eq (scope : Scope) (name : String) :
    scope.lowerSystem name = (scope.staggerElement? name).getD
      (if scope.loopItem? = some name then .string DataPath.loopItem
        else .string (DataPath.system name)) := by
  unfold lowerSystem systemProperty? staggerElement?
  by_cases hname : name = "item" ∨ name = "currentItem" <;>
    by_cases hitem : scope.loopItem? = some name <;>
    cases scope.staggerItem <;> simp [hname, hitem]

theorem lowerSystem_of_no_element {scope : Scope} {name : String}
    (h : scope.staggerElement? name = none) :
    scope.lowerSystem name = .string DataPath.loopItem ∨
      scope.lowerSystem name = .string (DataPath.system name) := by
  rw [lowerSystem_eq, h, Option.getD_none]
  split
  · exact .inl rfl
  · exact .inr rfl

theorem staggerElement?_of_no_stagger {scope : Scope} (h : scope.staggerItem = none)
    (name : String) : scope.staggerElement? name = none := by
  unfold staggerElement?
  rw [h, ite_self]

end Scope

/-! ## Statements -/

/-- Where there is a parameter for every argument, all arguments are lowered. Pairing them with the
parameters stops at the shorter of the two lists, so without the bound an argument could be left
out. -/
theorem lowerList_of_argumentData {scope : Scope} :
    ∀ {parameters : List ActionParameter} {arguments : List Expr} {data : List (String × Json)},
      arguments.length ≤ parameters.length →
      argumentData scope parameters arguments = .ok data →
      Expr.lowerList scope arguments = .ok (data.map (·.2))
  | [], [], _, _, h | _ :: _, [], _, _, h => by
    cases h
    rfl
  | p :: parameters, e :: arguments, _, hlength, h => by
    obtain ⟨value, hvalue, h⟩ := Except.bind_ok h
    obtain ⟨others, hothers, h⟩ := Except.bind_ok h
    cases h
    rw [Expr.lowerList, hvalue,
      lowerList_of_argumentData (Nat.le_of_succ_le_succ hlength) hothers]
    rfl

/-- Both kinds of calls lower all of their arguments: a call of an action refuses at once if they
are too many, and one of an operation lowers them before it binds them. -/
theorem Call.lowerList_of_lower {here : Surroundings} {scope : Scope} {c : Call}
    {ops : List DraftOperation} (h : c.lower here scope = .ok ops) :
    ∃ values, Expr.lowerList scope c.arguments = .ok values := by
  unfold Call.lower at h
  split at h
  · unfold invoke at h
    split at h
    · cases h
    · rename_i hlength
      obtain ⟨data, hdata, -⟩ := Except.bind_ok h
      exact ⟨_, lowerList_of_argumentData (Nat.le_of_not_lt hlength) hdata⟩
  · split at h
    · cases h
    · obtain ⟨values, hvalues, -⟩ := Except.bind_ok h
      exact ⟨values, hvalues⟩

namespace Stmt

/-- The references of a statement that do not stand in a body of it. -/
def references : Stmt → List Reference
  | .call c => Expr.referencesIn c.arguments
  | .declaration d => d.value.references
  | .branch condition _ _ _ => condition.references
  | .loop _ collection _ _ => collection.references
  | .breakLoop _ | .continueLoop _ => []

theorem lowers_of_lower {here : Surroundings} {scope : Scope} {s : Stmt}
    {ops : List DraftOperation} (h : s.lower here scope = .ok ops) :
    ∀ r ∈ s.references, r.Lowers scope := by
  cases s with
  | call c =>
    obtain ⟨values, hvalues⟩ := Call.lowerList_of_lower h
    exact Expr.lowers_of_lowerList c.arguments hvalues
  | declaration d =>
    obtain ⟨value, hvalue, -⟩ := Except.bind_ok h
    exact Expr.lowers_of_lower hvalue
  | branch condition thenBody elseBody l =>
    obtain ⟨_, _, _, htext, -⟩ := lower_branch_ok h
    obtain ⟨text, htext⟩ := Expr.operand_of_condition htext
    exact Expr.lowers_of_operand condition htext
  | loop item collection body l =>
    obtain ⟨items, _, hitems, -⟩ := lower_loop_ok h
    exact Expr.lowers_of_lower hitems
  | breakLoop _ | continueLoop _ => exact fun r hr => absurd hr List.not_mem_nil

/-- A reference stands somewhere in a body, at any depth, and the steps lead from the scope of the
body to its own. -/
def RefersIn (body : List Stmt) (steps : List Scope.Step) (r : Reference) : Prop :=
  ∃ place s, body = Place.fill s place ∧ place.steps = steps ∧ r ∈ s.references

/-- **If a body is lowered, then so is every reference in it,** in the scope that its place has. -/
theorem RefersIn.lowers {here : Surroundings} {scope : Scope} {body : List Stmt}
    {ops : List DraftOperation} {steps : List Scope.Step} {r : Reference}
    (hr : RefersIn body steps r) (h : lowerBlock here scope body = .ok ops) :
    r.Lowers (scope.follow steps) := by
  obtain ⟨place, s, rfl, rfl, hr⟩ := hr
  rw [Place.lowerBlock_fill] at h
  obtain ⟨before, -, h⟩ := Except.bind_ok h
  obtain ⟨inner, hinner, -⟩ := Except.bind_ok h
  exact lowers_of_lower hinner r hr

end Stmt

end Cuesheet
