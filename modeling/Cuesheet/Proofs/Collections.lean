import Cuesheet.Proofs.Conformance
import Cuesheet.Proofs.References

/-!
# What a loop goes through

A loop is lowered to a `forEach` operation, which can also be called by its name. The call binds its
arguments to the signature of `forEach`, which takes an array or a text as the collection. The loop
puts its operation together itself and binds nothing: it goes through whatever its collection is
lowered to.

`Expr.shape` says what kind of value that is without lowering anything. Where it is an array or a
text, the loop and the call make the same operation. Elsewhere the loop is lowered all the same, and
the call is refused (`Stmt.lower_loop_beside_call`).
-/

set_option autoImplicit false

namespace Cuesheet

/-! ## The kind of a lowered value -/

namespace Expr

/-- The kind of value that an expression is lowered to, if it is lowered at all. Whatever the engine
computes or looks up is a text, but the element of a stagger is known already. -/
def shape (scope : Scope) (e : Expr) : Json.Kind :=
  match scope.fold? e with
  | some value => value.kind
  | none =>
    match e with
    | .array _ _ => .array
    | .object _ _ => .object
    | .system name _ => ((scope.staggerElement? name).map Json.kind).getD .string
    | _ => .string

variable {scope : Scope}

theorem kind_lowerSystem (scope : Scope) (name : String) :
    (scope.lowerSystem name).kind =
      ((scope.staggerElement? name).map Json.kind).getD .string := by
  cases h : scope.staggerElement? name with
  | some item => simp [Scope.lowerSystem_eq, h]
  | none =>
    rcases Scope.lowerSystem_of_no_element h with heq | heq <;> rw [heq] <;> rfl

theorem kind_of_lower {e : Expr} {value : Json} (h : e.lower scope = .ok value) :
    value.kind = e.shape scope := by
  cases hfold : scope.fold? e with
  | some folded =>
    have hvalue : folded = value := Except.ok.inj ((lower_of_fold? hfold).symm.trans h)
    simp [shape, hfold, hvalue]
  | none =>
    unfold lower at h
    simp only [hfold] at h
    simp only [shape, hfold]
    cases e with
    | array elements l =>
      obtain ⟨values, -, h⟩ := Except.bind_ok h
      cases h
      rfl
    | object properties l =>
      obtain ⟨entries, -, h⟩ := Except.bind_ok h
      cases h
      rfl
    -- Operators that do not fold are texts, and so are paths.
    | binary op left right l =>
      obtain ⟨first, -, h⟩ := Except.bind_ok h
      obtain ⟨second, -, h⟩ := Except.bind_ok h
      cases h
      rfl
    | unary op inner l =>
      obtain ⟨text, -, h⟩ := Except.bind_ok h
      cases h
      rfl
    | parameter name l =>
      rcases Scope.of_lowerParameter h with rfl | ⟨index, rfl⟩ | rfl <;> rfl
    | «variable» name l =>
      rcases Scope.of_lowerVariable h with rfl | rfl | rfl <;> rfl
    | system name l =>
      cases h
      exact kind_lowerSystem scope name
    | chain root properties l =>
      cases h
      rfl
    | string s l | number x l | boolean b l | null l => cases h

end Expr

/-! ## The operation of a loop -/

/-- The data of the operation in front of a loop's body. -/
def Stmt.loopData (items : Json) (item : String) : Dict Json :=
  [("collection", items), ("itemName", .string item)]

namespace Catalogue

/-- What `forEach` does with a collection of some kind and the name of an item. -/
theorem lookup?_forEach : ∃ forEach, lookup? "forEach" = some forEach ∧
    ∀ (items : Json) (item : String), forEach.bind [items, .string item] =
      if items.kind = .array ∨ items.kind = .string then .ok (Stmt.loopData items item)
      else .error (.type "forEach" "collection" ["array", "expression"] items.kind.name) := by
  refine ⟨_, rfl, ?_⟩
  intro items item
  cases items <;> rfl

end Catalogue

namespace Stmt

variable {here : Surroundings} {scope : Scope}

/-- The data of the operation is put together without a look at the collection. -/
theorem lower_empty_loop (item : String) (collection : Expr) (l : Location) :
    lower here scope (.loop item collection [] l) = (collection.lower scope).map fun items =>
      [⟨l, "forEach", loopData items item⟩, ⟨l, "endForEach", []⟩] := by
  rw [lower, lowerBlock]
  cases collection.lower scope <;> rfl

end Stmt

/-- A call of the operation, where no action has its name, only binds what its arguments are lowered
to. -/
theorem Call.lower_forEach {here : Surroundings} {scope : Scope} {forEach : Signature}
    (hlookup : Catalogue.lookup? "forEach" = some forEach) (hown : here.action? "forEach" = none)
    {collection : Expr} {items : Json} (hitems : collection.lower scope = .ok items)
    (item : String) (l nameAt : Location) :
    Call.lower here scope ⟨"forEach", [collection, .string item nameAt], l⟩ =
      match forEach.bind [items, .string item] with
      | .ok data => .ok [⟨l, forEach.name, data⟩]
      | .error e => .error ⟨.arguments e, l⟩ := by
  have hname : Expr.lower scope (.string item nameAt) = .ok (.string item) :=
    Expr.lower_of_fold? rfl
  have hvalues : Expr.lowerList scope [collection, .string item nameAt] =
      .ok [items, .string item] := by
    simp only [Expr.lowerList, hitems, hname]
    rfl
  simp only [Call.lower, hown, hlookup, hvalues]
  rfl

namespace Stmt

/-- A loop with an empty body is lowered whenever its collection is. A call of `forEach` in its
place binds the same data, but only where the collection is lowered to an array or a text. -/
theorem lower_loop_beside_call : ∃ forEach, Catalogue.lookup? "forEach" = some forEach ∧
    ∀ (here : Surroundings) (scope : Scope) (item : String) (collection : Expr) (l : Location),
      (∀ ops, lower here scope (.loop item collection [] l) = .ok ops ↔
        ∃ items, collection.lower scope = .ok items ∧
          ops = [⟨l, "forEach", loopData items item⟩, ⟨l, "endForEach", []⟩]) ∧
      ∀ items, collection.lower scope = .ok items →
        (forEach.bind [items, .string item] =
          if collection.shape scope = .array ∨ collection.shape scope = .string then
            .ok (loopData items item)
          else .error (.type "forEach" "collection" ["array", "expression"]
            (collection.shape scope).name)) ∧
        (here.action? "forEach" = none → ∀ nameAt ops,
          Call.lower here scope ⟨"forEach", [collection, .string item nameAt], l⟩ = .ok ops ↔
            (collection.shape scope = .array ∨ collection.shape scope = .string) ∧
              ops = [⟨l, "forEach", loopData items item⟩]) := by
  obtain ⟨forEach, hlookup, hbind⟩ := Catalogue.lookup?_forEach
  refine ⟨forEach, hlookup, ?_⟩
  intro here scope item collection l
  refine ⟨?_, ?_⟩
  · intro ops
    rw [lower_empty_loop]
    cases collection.lower scope <;> simp [Except.map, eq_comm]
  · intro items hitems
    have hdata := hbind items item
    -- Whether the call is accepted depends on the kind of the collection, which the expression
    -- tells before it is lowered.
    rw [Expr.kind_of_lower hitems] at hdata
    refine ⟨hdata, ?_⟩
    intro hown nameAt ops
    rw [Call.lower_forEach hlookup hown hitems item l nameAt, hdata,
      Catalogue.name_of_lookup? hlookup]
    by_cases hshape : collection.shape scope = .array ∨ collection.shape scope = .string
    · rw [if_pos hshape]
      constructor
      · intro h
        cases h
        exact ⟨hshape, rfl⟩
      · rintro ⟨-, rfl⟩
        rfl
    · rw [if_neg hshape]
      simp [hshape]

/-- A loop through two slides, the second of which the engine looks up. -/
theorem lower_loop_beside_call_slides :
    ∃ forEach, Catalogue.lookup? "forEach" = some forEach ∧
      forEach.bind [.array [.string "#intro", .string "$scope.slide"], .string "slide"] =
        .ok (loopData (.array [.string "#intro", .string "$scope.slide"]) "slide") := by
  obtain ⟨forEach, hlookup, hall⟩ := lower_loop_beside_call
  refine ⟨forEach, hlookup, ?_⟩
  have hslides := hall ⟨⟨[], []⟩, .program⟩ (.top default) "slide"
    (.array [.string "#intro" default, .system "slide" default] default) default
  exact (hslides.2 (.array [.string "#intro", .string "$scope.slide"]) rfl).1

/-- A loop through a truth value is lowered, but `forEach` does not take one. -/
theorem lower_loop_not_as_call : ¬ ∀ forEach, Catalogue.lookup? "forEach" = some forEach →
    ∀ (here : Surroundings) (scope : Scope) (item : String) (collection : Expr) (l : Location),
      (∃ ops, lower here scope (.loop item collection [] l) = .ok ops) ↔
        ∃ items, collection.lower scope = .ok items ∧
          ∃ data, forEach.bind [items, .string item] = .ok data := by
  intro h
  obtain ⟨forEach, hlookup, hbind⟩ := Catalogue.lookup?_forEach
  have hiff := h forEach hlookup ⟨⟨[], []⟩, .program⟩ (.top default) "slide"
    (.boolean true default) default
  obtain ⟨items, hitems, data, hdata⟩ := hiff.mp ⟨_, rfl⟩
  cases hitems
  rw [hbind] at hdata
  cases hdata

end Stmt

end Cuesheet
