import Cuesheet.Proofs.Number
import Cuesheet.Proofs.Scope

/-!
# The size of constants

Folding computes with floats and keeps a whole number only below the size up to which floats are
exact. So the whole numbers among the constants of a program have the size of a machine word, in
every scope that is reached from its actions and timelines (`Scope.machineSized_follow`).
-/

set_option autoImplicit false

namespace Cuesheet

/-- The minus operator computes with floats, and the other one gives no number. -/
theorem UnaryOp.int_of_apply? {op : UnaryOp} {value : Json} {n : Int}
    (h : op.apply? value = some (.int n)) : ∃ x, Json.ofNumber? x = some (.int n) := by
  cases op with
  | neg =>
    obtain ⟨x, -, h⟩ := Option.bind_eq_some_iff.mp h
    exact ⟨_, h⟩
  | not => cases h

/-- A whole number is computed as a float or was there before. -/
theorem BinaryOp.int_of_apply? {op : BinaryOp} {l r : Json} {n : Int}
    (h : op.apply? l r = some (.int n)) :
    (∃ x, Json.ofNumber? x = some (.int n)) ∨ l = .int n ∨ r = .int n := by
  cases op with
  | add =>
    unfold BinaryOp.apply? at h
    dsimp only at h
    split at h
    · cases h
    · cases h
    · obtain ⟨x, -, h⟩ := Option.bind_eq_some_iff.mp h
      obtain ⟨y, -, h⟩ := Option.bind_eq_some_iff.mp h
      exact .inl ⟨_, h⟩
  | sub | mul =>
    obtain ⟨x, -, h⟩ := Option.bind_eq_some_iff.mp h
    obtain ⟨y, -, h⟩ := Option.bind_eq_some_iff.mp h
    exact .inl ⟨_, h⟩
  -- The divisor is looked at first, as there is no result if it is zero.
  | div | mod =>
    obtain ⟨y, -, h⟩ := Option.bind_eq_some_iff.mp h
    split at h
    · cases h
    · obtain ⟨x, -, h⟩ := Option.bind_eq_some_iff.mp h
      exact .inl ⟨_, h⟩
  | eq | ne => cases h
  | lt | le | gt | ge =>
    obtain ⟨_, -, h⟩ := Option.map_eq_some_iff.mp h
    cases h
  -- The logical operators compute nothing: they give back one of their operands.
  | and =>
    have h : (if l.truthy then r else l) = .int n := Option.some.inj h
    split at h
    · exact .inr (.inr h)
    · exact .inr (.inl h)
  | or =>
    have h : (if l.truthy then l else r) = .int n := Option.some.inj h
    split at h
    · exact .inr (.inl h)
    · exact .inr (.inr h)

/-- Whole numbers that are constant have the size of a machine word. -/
def MachineSized (constant? : String → Option Json) : Prop :=
  ∀ name n, constant? name = some (.int n) → n.natAbs < 2 ^ 64

/-- What an expression folds to is a literal, a result, or one of the constants, and the latter are
of machine size by assumption. Numbers inside of arrays and objects are not looked at, as no
operator takes one out. -/
theorem Expr.natAbs_lt_of_fold? {constant? : String → Option Json} (h : MachineSized constant?) :
    ∀ (e : Expr) {n : Int}, e.fold? constant? = some (.int n) → n.natAbs < 2 ^ 64
  | .number _ _, _, hn => Nat.lt_trans (Json.natAbs_lt_of_ofNumber? hn) (by decide)
  | .variable name _, n, hn => h name n hn
  | .unary op inner _, n, hn => by
    obtain ⟨value, -, hn⟩ := Option.bind_eq_some_iff.mp hn
    obtain ⟨x, hx⟩ := UnaryOp.int_of_apply? hn
    exact Nat.lt_trans (Json.natAbs_lt_of_ofNumber? hx) (by decide)
  | .binary op left right _, n, hn => by
    obtain ⟨l, hl, hn⟩ := Option.bind_eq_some_iff.mp hn
    obtain ⟨r, hr, hn⟩ := Option.bind_eq_some_iff.mp hn
    rcases BinaryOp.int_of_apply? hn with ⟨x, hx⟩ | rfl | rfl
    · exact Nat.lt_trans (Json.natAbs_lt_of_ofNumber? hx) (by decide)
    · exact natAbs_lt_of_fold? h left hl
    · exact natAbs_lt_of_fold? h right hr
  | .array _ _, _, hn | .object _ _, _, hn => by
    obtain ⟨_, -, hn⟩ := Option.map_eq_some_iff.mp hn
    cases hn
  | .string _ _, _, hn | .boolean _ _, _, hn | .null _, _, hn | .parameter _ _, _, hn
  | .system _ _, _, hn | .chain _ _ _, _, hn => by cases hn

namespace Constants

/-- A constant that is bound already keeps its value, so a new one only counts if there is none of
its name. -/
theorem machineSized_bind {constants : Constants} (h : MachineSized constants.constant?)
    {value : Json} (hvalue : ∀ n, value = .int n → n.natAbs < 2 ^ 64) (d : Declaration) :
    MachineSized (constants.bind d value).constant? := by
  intro name n hn
  obtain ⟨b, hb, hbn⟩ := Option.map_eq_some_iff.mp hn
  rw [get?_bind] at hb
  rcases Option.or_eq_some_iff.mp hb with hb | ⟨-, hb⟩
  · exact h name n (Option.map_eq_some_iff.mpr ⟨b, hb, hbn⟩)
  · split at hb
    · cases hb
      exact hvalue n hbn
    · cases hb

/-- What a program declares folds to numbers of machine size. Declarations are folded from front to
back, and each of them sees those before it. -/
theorem machineSized_ofDeclarations (declarations : List Declaration) :
    MachineSized (ofDeclarations declarations).constant? := by
  have hfold : ∀ (ds : List Declaration) {constants : Constants}, MachineSized constants.constant? →
      MachineSized (ds.foldl (fun constants d => constants.tryBind d constants.constant?)
        constants).constant? := by
    intro ds
    induction ds with
    | nil => exact id
    | cons d ds ih =>
      intro constants h
      apply ih
      show MachineSized (constants.tryBind d constants.constant?).constant?
      unfold tryBind
      split
      · rename_i value hvalue
        refine machineSized_bind h ?_ d
        rintro n rfl
        exact Expr.natAbs_lt_of_fold? h d.value hvalue
      · exact h
  exact hfold declarations nofun

end Constants

namespace Scope

/-- A local constant hides a global one, and a run-time variable hides both. -/
theorem machineSized_constant? {scope : Scope} (hlocals : MachineSized scope.locals.constant?)
    (hglobals : MachineSized scope.globals.constants.constant?) : MachineSized scope.constant? := by
  intro name n hn
  unfold constant? at hn
  split at hn
  · cases hn
  · rcases Option.or_eq_some_iff.mp hn with hn | ⟨-, hn⟩
    · exact hlocals name n hn
    · exact hglobals name n hn

theorem machineSized_take {scope : Scope} (hlocals : MachineSized scope.locals.constant?)
    (hglobals : MachineSized scope.globals.constants.constant?) (step : Step) :
    MachineSized (scope.take step).locals.constant? := by
  -- Entering a loop can bring back a constant that an outer item hid, so the invariant is on all
  -- locals.
  cases step with
  | enterBlock | enterLoop _ | withStaggerItem _ => exact hlocals
  | declare d =>
    intro name n hn
    obtain ⟨b, hb, hvalue⟩ := Option.map_eq_some_iff.mp hn
    change (scope.declare d).locals.get? name = some b at hb
    rw [get?_declare] at hb
    split at hb
    · obtain ⟨value, hfold, rfl⟩ := Option.map_eq_some_iff.mp hb
      cases hvalue
      exact Expr.natAbs_lt_of_fold? (machineSized_constant? hlocals hglobals) d.value hfold
    · exact hlocals name n (Option.map_eq_some_iff.mpr ⟨b, hb, hvalue⟩)

/-- So does what its blocks declare, in every scope that is reached. The globals are the same in all
of them, so only the locals are followed step by step. -/
theorem machineSized_follow {scope : Scope} (hlocals : MachineSized scope.locals.constant?)
    (hglobals : MachineSized scope.globals.constants.constant?) (steps : List Step) :
    MachineSized (scope.follow steps).constant? := by
  induction steps generalizing scope with
  | nil => exact machineSized_constant? hlocals hglobals
  | cons step steps ih =>
    exact ih (machineSized_take hlocals hglobals step) (by rwa [globals_take])

end Scope

end Cuesheet
