import Cuesheet.Proofs.Numbering
import Cuesheet.Proofs.Places

/-!
# What happens in a block stays out of sight behind it

Two bodies that differ only inside one branch or one loop are lowered alike outside of it. This is a
statement about two runs: ids are counted through a whole body, so those behind the block may differ
from one run to the other. Nothing else may: not the number of operations, not their names, not
their data, and not the error if there is one.

The block can stand at any depth. What stands behind it is then all that comes later, on its own
level and on the levels around it, with the marks that close those.
-/

set_option autoImplicit false

namespace Cuesheet

/-! ## Operations without their ids -/

namespace Engine

/-- An operation as it is without its identity. -/
def Operation.content {ι : Type} (o : Operation ι) : String × Dict Json := (o.name, o.data)

/-- Numbering changes nothing but the identities. -/
theorem Operation.numberList_content (supply : IdSupply) (os : List (Operation Location))
    (n : Numbering) :
    (Operation.numberList supply os n).1.map Operation.content = os.map Operation.content := by
  obtain ⟨-, pairs, hdraft, hresult, -⟩ := Operation.numberList_pass supply os n
  rw [← hresult, ← hdraft, List.map_map, List.map_map]
  rfl

theorem Operation.numberList_append (supply : IdSupply) :
    ∀ (os others : List (Operation Location)) (n : Numbering),
      (Operation.numberList supply (os ++ others) n).1 =
        (Operation.numberList supply os n).1 ++
          (Operation.numberList supply others (Operation.numberList supply os n).2).1
  | [], _, _ => rfl
  | o :: os, others, n =>
    congrArg (List.cons _) (Operation.numberList_append supply os others (o.number supply n).2)

end Engine

namespace Stmt

/-- The operations of a body with their ids, where `n` says which ids were issued before. -/
def lowerNumbered (here : Surroundings) (scope : Scope) (supply : Engine.IdSupply)
    (n : Engine.Numbering) (body : List Stmt) : Lowered (List (Engine.Operation String)) :=
  (lowerBlock here scope body).map fun ops => (Engine.Operation.numberList supply ops n).1

/-! ## Two blocks that differ only inside -/

/-- Two branches that may have other bodies, or two loops that may have another body. -/
inductive SameOutside : Stmt → Stmt → Prop
  | branch (condition : Expr) (thenBody thenBody' : List Stmt)
      (elseBody elseBody' : Option (List Stmt)) (location : Location) :
      SameOutside (.branch condition thenBody elseBody location)
        (.branch condition thenBody' elseBody' location)
  | loop (item : String) (collection : Expr) (body body' : List Stmt) (location : Location) :
      SameOutside (.loop item collection body location) (.loop item collection body' location)

/-- All bodies inside a statement can be lowered. -/
def PartsLower (here : Surroundings) (scope : Scope) : Stmt → Prop
  | .branch _ thenBody elseBody l =>
    (∃ ops, lowerBlock here scope.enterBlock thenBody = .ok ops) ∧
      ∃ ops, lowerElse here scope l elseBody = .ok ops
  | .loop item _ body _ => ∃ ops, lowerBlock here (scope.enterLoop item) body = .ok ops
  | .call _ | .declaration _ | .breakLoop _ | .continueLoop _ => True

namespace SameOutside

variable {here : Surroundings} {scope : Scope} {s s' : Stmt}

theorem steps_eq (h : SameOutside s s') : s.steps = [] ∧ s'.steps = [] := by
  cases h <;> exact ⟨rfl, rfl⟩

/-- What can fail outside of the bodies fails in both. -/
theorem lower_error_iff (h : SameOutside s s') (hs : s.PartsLower here scope)
    (hs' : s'.PartsLower here scope) (e : LowerError) :
    s.lower here scope = .error e ↔ s'.lower here scope = .error e := by
  cases h with
  | branch condition thenBody thenBody' elseBody elseBody' l =>
    obtain ⟨⟨first, hfirst⟩, second, hsecond⟩ := hs
    obtain ⟨⟨first', hfirst'⟩, second', hsecond'⟩ := hs'
    rw [lower, lower, hfirst, hsecond, hfirst', hsecond']
    exact Except.bind_error_congr (fun _ => Iff.rfl) (by simp [Except.ok_bind, pure, Except.pure])
  | loop item collection body body' l =>
    obtain ⟨inner, hinner⟩ := hs
    obtain ⟨inner', hinner'⟩ := hs'
    rw [lower, lower, hinner, hinner']
    exact Except.bind_error_congr (fun _ => Iff.rfl) (by simp [Except.ok_bind, pure, Except.pure])

end SameOutside

/-- Numbered operations are those that were lowered. -/
def Numbers (lowered : Lowered (List DraftOperation)) (ops : List (Engine.Operation String)) :
    Prop :=
  ∃ drafts, lowered = .ok drafts ∧
    ops.map Engine.Operation.content = drafts.map Engine.Operation.content

section

variable {here : Surroundings} {scope : Scope} {place : Place} {s : Stmt}
  {supply : Engine.IdSupply} {n : Engine.Numbering}

/-- The numbered operations of a body, cut where the statement at a place begins and ends. What
stands before the place is numbered without a look at the statement. -/
theorem lowerNumbered_fill {ops : List (Engine.Operation String)}
    (h : lowerNumbered here scope supply n (place.fill s) = .ok ops) :
    ∃ before inner behind, place.lowerBefore here scope = .ok before ∧
      ops = (Engine.Operation.numberList supply before n).1 ++ inner ++ behind ∧
      Numbers (s.lower here (scope.follow place.steps)) inner ∧
      Numbers (place.lowerBehind here scope s.steps) behind := by
  obtain ⟨drafts, hdrafts, hops⟩ := Except.map_ok h
  rw [Place.lowerBlock_fill] at hdrafts
  obtain ⟨before, hbefore, hdrafts⟩ := Except.bind_ok hdrafts
  obtain ⟨inner, hinner, hdrafts⟩ := Except.bind_ok hdrafts
  obtain ⟨behind, hbehind, hdrafts⟩ := Except.bind_ok hdrafts
  cases hdrafts
  rw [Engine.Operation.numberList_append, Engine.Operation.numberList_append] at hops
  exact ⟨before, _, _, hbefore, hops.symm,
    ⟨inner, hinner, Engine.Operation.numberList_content _ _ _⟩,
    ⟨behind, hbehind, Engine.Operation.numberList_content _ _ _⟩⟩

theorem lowerNumbered_error_iff {body : List Stmt} {e : LowerError} :
    lowerNumbered here scope supply n body = .error e ↔ lowerBlock here scope body = .error e := by
  unfold lowerNumbered
  cases lowerBlock here scope body <;> simp [Except.map]

end

/-- **Two bodies that differ only inside one block are lowered alike outside of it.** If both are
lowered, they begin with the same operations, ids included, then come those of the block, and behind
it there are as many operations in the one as in the other, with the same names and the same data.
And if all that may differ can be lowered, one body fails exactly if the other does, with the same
error. -/
theorem lowerNumbered_isolated (here : Surroundings) (scope : Scope) (place : Place) {s s' : Stmt}
    (h : SameOutside s s') (supply : Engine.IdSupply) (n : Engine.Numbering) :
    (∀ ops ops', lowerNumbered here scope supply n (place.fill s) = .ok ops →
      lowerNumbered here scope supply n (place.fill s') = .ok ops' →
      ∃ before inner inner' behind behind',
        ops = before ++ inner ++ behind ∧ ops' = before ++ inner' ++ behind' ∧
        Numbers (s.lower here (scope.follow place.steps)) inner ∧
        Numbers (s'.lower here (scope.follow place.steps)) inner' ∧
        Numbers (place.lowerBehind here scope []) behind ∧
        behind.map Engine.Operation.content = behind'.map Engine.Operation.content) ∧
    (s.PartsLower here (scope.follow place.steps) →
      s'.PartsLower here (scope.follow place.steps) →
      ∀ e, lowerNumbered here scope supply n (place.fill s) = .error e ↔
        lowerNumbered here scope supply n (place.fill s') = .error e) := by
  obtain ⟨hsteps, hsteps'⟩ := h.steps_eq
  constructor
  · intro ops ops' hops hops'
    obtain ⟨before, inner, behind, hbefore, rfl, hinner, hbehind⟩ := lowerNumbered_fill hops
    obtain ⟨before', inner', behind', hbefore', rfl, hinner', hbehind'⟩ := lowerNumbered_fill hops'
    cases hbefore.symm.trans hbefore'
    -- Neither block takes a step, so what stands behind is lowered in the same scope in both runs.
    rw [hsteps] at hbehind
    rw [hsteps'] at hbehind'
    obtain ⟨drafts, hdrafts, hcontent⟩ := hbehind
    obtain ⟨drafts', hdrafts', hcontent'⟩ := hbehind'
    cases hdrafts.symm.trans hdrafts'
    exact ⟨_, inner, inner', behind, behind', rfl, rfl, hinner, hinner',
      ⟨drafts, hdrafts, hcontent⟩, hcontent.trans hcontent'.symm⟩
  · intro hparts hparts' e
    rw [lowerNumbered_error_iff, lowerNumbered_error_iff, Place.lowerBlock_fill,
      Place.lowerBlock_fill, hsteps, hsteps']
    -- The parts before and behind the block are the same two times; the block itself can fail only
    -- in its condition or its collection.
    refine Except.bind_error_congr (fun _ => Iff.rfl) fun before before' _ _ => ?_
    refine Except.bind_error_congr (h.lower_error_iff hparts hparts') fun inner inner' _ _ => ?_
    refine Except.bind_error_congr (fun _ => Iff.rfl) fun behind behind' _ _ => ?_
    simp [pure, Except.pure]

end Stmt

namespace Captions

def here : Surroundings := ⟨⟨[], []⟩, .program⟩

def log (n : UInt32) : Stmt := .call ⟨"log", [.variable "caption" (.onLine n)], .onLine n⟩

/-- Inside a loop, between a caption and two places that log it. -/
def place : Place :=
  .inside [.declaration ⟨"caption", .string "outer" (.onLine 1), .onLine 1⟩]
    (.inLoop "slide" (.array [] (.onLine 2)) (.onLine 2)) (.top [] [log 7]) [log 9]

/-- A block with a caption of its own. -/
def first : Stmt :=
  .branch (.system "ready" (.onLine 3))
    [.declaration ⟨"caption", .string "inner" (.onLine 4), .onLine 4⟩, log 5] none (.onLine 3)

/-- The same block with nothing to do at first, and a caption that is set at run time. -/
def second : Stmt :=
  .branch (.system "ready" (.onLine 3)) []
    (some [.declaration ⟨"caption", .system "time" (.onLine 5), .onLine 5⟩, log 6,
      .breakLoop (.onLine 6)])
    (.onLine 3)

end Captions

/-- Whatever caption a block declares, the one outside is logged behind it. The two bodies have
seven and ten operations, so the ids behind the block differ. -/
theorem Stmt.lowerNumbered_isolated_captions :
    ∃ before inner inner' behind behind',
      lowerNumbered Captions.here (.top default) .sequential default
          (Captions.place.fill Captions.first) = .ok (before ++ inner ++ behind) ∧
      lowerNumbered Captions.here (.top default) .sequential default
          (Captions.place.fill Captions.second) = .ok (before ++ inner' ++ behind') ∧
      (before ++ inner ++ behind).length = 7 ∧ (before ++ inner' ++ behind').length = 10 ∧
      behind.map Engine.Operation.content = behind'.map Engine.Operation.content ∧
      behind.map Engine.Operation.content =
        [("log", [("logValue", .string "outer")]), ("endForEach", []),
          ("log", [("logValue", .string "outer")])] := by
  obtain ⟨ops, hops, hlength⟩ := Except.exists_ok_of_map (f := List.length) (b := 7)
    (m := lowerNumbered Captions.here (.top default) .sequential default
      (Captions.place.fill Captions.first)) (by decide +kernel)
  obtain ⟨ops', hops', hlength'⟩ := Except.exists_ok_of_map (f := List.length) (b := 10)
    (m := lowerNumbered Captions.here (.top default) .sequential default
      (Captions.place.fill Captions.second)) (by decide +kernel)
  obtain ⟨before, inner, inner', behind, behind', rfl, rfl, -, -, ⟨drafts, hdrafts, hbehind⟩,
      hcontent⟩ :=
    (lowerNumbered_isolated Captions.here (.top default) Captions.place (.branch ..) .sequential
      default).1 ops ops' hops hops'
  cases hdrafts
  exact ⟨before, inner, inner', behind, behind', hops, hops', hlength, hlength', hcontent, hbehind⟩

end Cuesheet
