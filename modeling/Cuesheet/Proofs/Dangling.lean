import Cuesheet.Proofs.Format.Numbers
import Cuesheet.Proofs.Number
import Cuesheet.Proofs.References

/-!
# Dangling references

An expression is lowered unless one of its references dangles, and it is refused at the first one
that does. Folding is tried at every node before anything else, but it hides nothing: what goes
wrong is what goes wrong first with the references, taken by themselves from left to right
(`Expr.failure?_lower`). A part that folds refers to constants only, and a literal that does not
fold is a number that is not finite.

`Reference.Resolves` says in terms of the names in a scope when a reference has a meaning there.
-/

set_option autoImplicit false

namespace Cuesheet

/-! ## The first reference that fails -/

/-- The reason for which a reference alone is not lowered. -/
def Reference.failure? (scope : Scope) (r : Reference) : Option LowerError :=
  (r.expr.lower scope).failure?

namespace Expr

variable {scope : Scope}

theorem findSome?_of_lowers {rs : List Reference} (h : ∀ r ∈ rs, r.Lowers scope) :
    rs.findSome? (·.failure? scope) = none :=
  List.findSome?_eq_none_iff.mpr fun r hr => Lowered.failure?_eq_none_iff.mpr (h r hr)

/-- A number literal folds if its value can be written, and then lowering cannot fail at it. This is
the only place where the numbers of an expression matter. -/
theorem isSome_fold?_number (scope : Scope) {value : Float} {l : Location}
    (h : AllFinite (numbers (.number value l))) :
    (scope.fold? (.number value l)).isSome = true := by
  show (Json.ofNumber? value).isSome = true
  rw [Json.isSome_ofNumber?]
  exact h value List.mem_cons_self

mutual

/-- **Lowering fails like the first of the references that fail.** Where the whole expression folds,
all of its references do, so there is no failure on either side. Otherwise its parts are lowered
from left to right, and the induction hypotheses say how each of them fails. -/
theorem failure?_lower : ∀ (e : Expr), AllFinite e.numbers →
    (e.lower scope).failure? = e.references.findSome? (·.failure? scope) := by
  intro e hfinite
  cases hfold : scope.fold? e with
  | some value =>
    rw [lower_of_fold? hfold, findSome?_of_lowers (lowers_of_fold? e hfold)]
    rfl
  | none =>
    cases e with
    | array elements _ =>
      rw [lower, hfold]
      exact (Lowered.failure?_bind_pure _ _).trans (failure?_lowerList elements hfinite)
    | object properties _ =>
      rw [lower, hfold]
      exact (Lowered.failure?_bind_pure _ _).trans (failure?_lowerProperties properties hfinite)
    | unary op inner _ =>
      rw [lower, hfold]
      refine (Lowered.failure?_bind_pure _ _).trans ?_
      -- Operands fail like values, so the hypothesis about the inner expression applies.
      rw [failure?_operand, failure?_lower inner hfinite, references]
    | binary op left right _ =>
      obtain ⟨hleft, hright⟩ := allFinite_append.mp hfinite
      rw [lower, hfold]
      refine (Lowered.failure?_bind₂_pure _ _ _).trans ?_
      rw [failure?_operand, failure?_operand, failure?_lower left hleft,
        failure?_lower right hright, references, List.findSome?_append]
    | parameter _ _ | «variable» _ _ | system _ _ | chain _ _ _ =>
      rw [references, List.findSome?_singleton]
      rfl
    | number value l =>
      have hsome := isSome_fold?_number scope hfinite
      rw [hfold] at hsome
      cases hsome
    -- The other literals always fold.
    | string _ _ | boolean _ _ | null _ => cases hfold

theorem failure?_lowerList : ∀ (es : List Expr), AllFinite (numbersIn es) →
    (lowerList scope es).failure? = (referencesIn es).findSome? (·.failure? scope)
  | [], _ => rfl
  | e :: rest, hfinite => by
    obtain ⟨he, hrest⟩ := allFinite_append.mp hfinite
    rw [lowerList, referencesIn, List.findSome?_append, ← failure?_lower e he,
      ← failure?_lowerList rest hrest]
    exact Lowered.failure?_bind₂_pure _ _ _

theorem failure?_lowerProperties : ∀ (properties : List (String × Expr)),
    AllFinite (numbersInProperties properties) →
    (lowerProperties scope properties).failure? =
      (referencesInProperties properties).findSome? (·.failure? scope)
  | [], _ => rfl
  | (key, e) :: rest, hfinite => by
    obtain ⟨he, hrest⟩ := allFinite_append.mp hfinite
    rw [lowerProperties, referencesInProperties, List.findSome?_append, ← failure?_lower e he,
      ← failure?_lowerProperties rest hrest]
    exact Lowered.failure?_bind₂_pure _ _ _

end

end Expr

/-! ## What resolves -/

namespace Reference

/-- The reference has a meaning in the scope. A name of an outer loop has none, and it hides a
parameter. -/
def Resolves (scope : Scope) : Reference → Prop
  | parameter name _ =>
    scope.loopItem? = some name ∨
      (scope.inAction = true ∧ name ∈ scope.parameters ∧ name ∉ scope.loops)
  | «variable» name _ =>
    scope.loopItem? = some name ∨ name ∈ scope.runtimeLocals ∨ name ∈ scope.globals.runtime ∨
      scope.locals.contains name = true ∨ scope.globals.constants.contains name = true
  | system _ _ | chain _ _ _ => True

instance (scope : Scope) : DecidablePred (Resolves scope)
  | parameter name _ => inferInstanceAs (Decidable (scope.loopItem? = some name ∨ _))
  | «variable» name _ => inferInstanceAs (Decidable (scope.loopItem? = some name ∨ _))
  | system _ _ | chain _ _ _ => .isTrue trivial

end Reference

theorem Text.starts_append {start text : String} (h : start.toList <+: text.toList)
    (rest : String) :
    start.toList <+: (text ++ rest).toList := by
  rw [String.toList_append]
  exact h.trans (List.prefix_append _ _)

/-- Two messages differ if one has a start that the other does not have. The rest of a message
depends on names and suggestions, and need not be looked at. -/
theorem Text.ne_of_starts {start text other : String} (h : start.toList <+: text.toList)
    (hother : ¬ start.toList <+: other.toList) : text ≠ other := by
  intro heq
  rw [heq] at h
  exact hother h

namespace LowerError.Cause

open Text

/-- The reasons that are about a reference without a meaning. -/
def isDangling : Cause → Bool
  | outerLoopItem _ | parameterOutsideAction _ | unknownParameter _ _ | unknownVariable _ _ => true
  | _ => false

theorem kind_of_isDangling {cause : Cause} (h : cause.isDangling = true) :
    cause.kind = .invalidExpression := by
  cases cause with
  | outerLoopItem _ | parameterOutsideAction _ | unknownParameter _ _ | unknownVariable _ _ => rfl
  | _ => cases h

/-- The message has a start that the message about unsupported forms does not have. -/
theorem message_of_isDangling {cause : Cause} (h : cause.isDangling = true) :
    cause.message ≠ unsupportedExpression.message := by
  cases cause with
  | outerLoopItem name =>
    have hstart := starts_append
      (starts_append (List.prefix_refl "Loop variable '".toList) name)
    exact ne_of_starts (hstart _) (by decide)
  | parameterOutsideAction name =>
    have hstart := starts_append
      (starts_append (List.prefix_refl "Parameter reference '".toList) name)
    exact ne_of_starts (hstart _) (by decide)
  | unknownParameter name _ =>
    have hstart := starts_append
      (starts_append (List.prefix_refl "Unknown parameter '".toList) name)
    exact ne_of_starts (starts_append (hstart _) _) (by decide)
  | unknownVariable name _ =>
    have hstart := starts_append
      (starts_append (List.prefix_refl "Unknown variable '@".toList) name)
    exact ne_of_starts (starts_append (hstart _) _) (by decide)
  | _ => cases h

end LowerError.Cause

namespace Reference

/-- What becomes of a reference by itself: either it has a meaning and a value, or it has none and
the error says so at its own place. There is no third case. -/
def Decided (scope : Scope) (r : Reference) (m : Lowered Json) : Prop :=
  (r.Resolves scope ∧ ∃ value, m = .ok value) ∨
  (¬ r.Resolves scope ∧ ∃ cause, cause.isDangling = true ∧ m = .error ⟨cause, r.expr.location⟩)

/-- A name without sign is looked up in this order: the item of the innermost loop, then the items
of the outer loops, which are an error, then the parameters. -/
theorem decided_parameter (scope : Scope) (name : String) (l : Location) :
    Decided scope (.parameter name l) (scope.lowerParameter name l) := by
  unfold Scope.lowerParameter Scope.identifier?
  by_cases hitem : scope.loopItem? = some name
  · rw [if_pos hitem]
    exact .inl ⟨.inl hitem, _, rfl⟩
  rw [if_neg hitem]
  -- The item of an outer loop cannot be reached, also where a parameter has its name.
  by_cases hloop : name ∈ scope.loops
  · rw [if_pos hloop]
    refine .inr ⟨?_, _, rfl, rfl⟩
    intro h
    exact h.elim hitem fun h => h.2.2 hloop
  rw [if_neg hloop]
  -- What is left are parameters, and they mean something inside of actions only.
  cases hindex : scope.parameters.idxOf? name with
  | none =>
    have hname : name ∉ scope.parameters := List.idxOf?_eq_none_iff.mp hindex
    have hdangles : ¬ (parameter name l).Resolves scope := fun h =>
      h.elim hitem fun h => hname h.2.1
    cases scope.inAction with
    | true => exact .inr ⟨hdangles, _, rfl, rfl⟩
    | false => exact .inr ⟨hdangles, _, rfl, rfl⟩
  | some index =>
    have hname : name ∈ scope.parameters := by
      by_contra hname
      rw [List.idxOf?_eq_none_iff.mpr hname] at hindex
      cases hindex
    cases haction : scope.inAction with
    | true =>
      have hresolves : (parameter name l).Resolves scope := .inr ⟨haction, hname, hloop⟩
      cases scope.style with
      | named => exact .inl ⟨hresolves, _, rfl⟩
      | positional => exact .inl ⟨hresolves, _, rfl⟩
    | false =>
      refine .inr ⟨?_, _, rfl, rfl⟩
      intro h
      refine h.elim hitem fun h => ?_
      rw [haction] at h
      cases h.1

/-- A name with `@` is looked up in this order: the item of the innermost loop, the runtime
variables of the action, its constants, the global constants, and at last the global runtime
variables. -/
theorem decided_variable (scope : Scope) (name : String) (l : Location) :
    Decided scope (.variable name l) (Expr.lower scope (.variable name l)) := by
  rw [Scope.lower_variable]
  by_cases hitem : scope.loopItem? = some name
  · rw [if_pos hitem]
    exact .inl ⟨.inl hitem, _, rfl⟩
  rw [if_neg hitem]
  unfold Scope.lowerDeclared Scope.holding?
  -- The order of the cases is that of the lookup: what is nearer hides what is further out.
  cases hruntime : scope.isRuntimeLocal name with
  | true => exact .inl ⟨.inr (.inl (of_decide_eq_true hruntime)), _, rfl⟩
  | false =>
    have hruntime : name ∉ scope.runtimeLocals := of_decide_eq_false hruntime
    cases hlocal : scope.locals.constant? name with
    | some value =>
      have hcontains : scope.locals.contains name = true := by
        rw [← Constants.isSome_constant?, hlocal]
        rfl
      exact .inl ⟨.inr (.inr (.inr (.inl hcontains))), _, rfl⟩
    | none =>
      cases hglobal : scope.globals.constants.constant? name with
      | some value =>
        have hcontains : scope.globals.constants.contains name = true := by
          rw [← Constants.isSome_constant?, hglobal]
          rfl
        exact .inl ⟨.inr (.inr (.inr (.inr hcontains))), _, rfl⟩
      | none =>
        by_cases hname : name ∈ scope.globals.runtime
        · exact .inl ⟨.inr (.inr (.inl hname)), _, if_pos hname⟩
        · refine .inr ⟨?_, _, rfl, if_neg hname⟩
          simp [Resolves, hitem, hruntime, hname, ← Constants.isSome_constant?, hlocal, hglobal]

/-- References to the system and chains of properties are texts that are handed on as they are, and
so always have a meaning. -/
theorem decided (scope : Scope) (r : Reference) : r.Decided scope (r.expr.lower scope) := by
  cases r with
  | parameter name l => exact decided_parameter scope name l
  | «variable» name l => exact decided_variable scope name l
  | system name l => exact .inl ⟨trivial, _, rfl⟩
  | chain root properties l => exact .inl ⟨trivial, _, rfl⟩

theorem failure?_eq_none_iff {scope : Scope} {r : Reference} :
    r.failure? scope = none ↔ r.Resolves scope := by
  rw [failure?, Lowered.failure?_eq_none_iff]
  rcases decided scope r with ⟨hresolves, hvalue⟩ | ⟨hdangles, cause, -, herror⟩
  · exact iff_of_true hvalue hresolves
  · simp [herror, hdangles]

theorem of_failure? {scope : Scope} {r : Reference} {err : LowerError}
    (h : r.failure? scope = some err) :
    ¬ r.Resolves scope ∧ err.cause.isDangling = true ∧ err.location = r.expr.location := by
  have herr := Lowered.failure?_eq_some_iff.mp h
  rcases decided scope r with ⟨-, value, hvalue⟩ | ⟨hdangles, cause, hcause, herror⟩
  · rw [hvalue] at herr
    cases herr
  · rw [herror] at herr
    cases herr
    exact ⟨hdangles, hcause, rfl⟩

end Reference

/-- **An expression is lowered exactly if none of its references dangles.** Otherwise the error is
about the first that does, and is never the one about unsupported forms. As a condition, the
expression fails in the same way. -/
theorem Expr.lower_resolves (scope : Scope) (e : Expr) (hfinite : AllFinite e.numbers) :
    ((∃ value, e.lower scope = .ok value) ↔ ∀ r ∈ e.references, r.Resolves scope) ∧
    (∀ err, e.lower scope = .error err →
      err.diagnostic.kind = .invalidExpression ∧
      err.diagnostic.message ≠ "Unsupported expression form" ∧
      ∃ before r behind, e.references = before ++ r :: behind ∧
        (∀ earlier ∈ before, earlier.Resolves scope) ∧ ¬ r.Resolves scope ∧
        err.diagnostic.location = r.expr.location) ∧
    ∀ err, e.condition scope = .error err ↔ e.lower scope = .error err := by
  have hfailure : (e.lower scope).failure? = _ := failure?_lower e hfinite
  refine ⟨?_, ?_, ?_⟩
  · rw [← Lowered.failure?_eq_none_iff, hfailure, List.findSome?_eq_none_iff]
    exact forall₂_congr fun r _ => Reference.failure?_eq_none_iff
  · intro err herr
    rw [Lowered.failure?_eq_some_iff.mpr herr] at hfailure
    -- The failure is that of the first reference that fails, so those before it resolve.
    obtain ⟨before, r, behind, hsplit, hr, hbefore⟩ := List.findSome?_eq_some_iff.mp hfailure.symm
    obtain ⟨hdangles, hcause, hlocation⟩ := Reference.of_failure? hr
    exact ⟨LowerError.Cause.kind_of_isDangling hcause,
      LowerError.Cause.message_of_isDangling hcause,
      before, r, behind, hsplit, fun r hr => Reference.failure?_eq_none_iff.mp (hbefore r hr),
      hdangles, hlocation⟩
  · intro err
    rw [← Lowered.failure?_eq_some_iff, ← Lowered.failure?_eq_some_iff, failure?_condition]

namespace Cells

/-- The body of an action with the parameter `row`. -/
def outside : Scope := .action ⟨.empty, ["count"]⟩ ["row"] .named

/-- Two loops further in. The item of the outer one hides the parameter and cannot be reached. -/
def inside : Scope := (outside.enterLoop "row").enterLoop "cell"

/-- `[@count, -(row * 2)]` -/
def expr : Expr :=
  .array [.variable "count" ⟨1, 2, 6⟩,
    .unary .neg (.binary .mul (.parameter "row" ⟨1, 12, 3⟩) (.number 2 ⟨1, 18, 1⟩) ⟨1, 12, 7⟩)
      ⟨1, 10, 9⟩] ⟨1, 1, 20⟩

end Cells

theorem Expr.lower_resolves_cells :
    AllFinite Cells.expr.numbers ∧ (∃ value, Cells.expr.lower Cells.outside = .ok value) ∧
      Cells.expr.condition Cells.inside = .error ⟨.outerLoopItem "row", ⟨1, 12, 3⟩⟩ := by
  have hfinite : AllFinite Cells.expr.numbers := by decide
  have houtside : ∀ r ∈ Cells.expr.references, r.Resolves Cells.outside := by decide
  refine ⟨hfinite, (Cells.expr.lower_resolves Cells.outside hfinite).1.mpr houtside, ?_⟩
  exact ((Cells.expr.lower_resolves Cells.inside hfinite).2.2 _).mpr rfl

end Cuesheet
