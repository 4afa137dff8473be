import Cuesheet.Proofs.Scope
import Cuesheet.Proofs.Sites.Block

/-!
# Places in a body

A place is a body with one statement taken out, at any depth: what stands before and behind it on
its own level, and the branch or the loop around that level, with what stands before and behind
that.

Lowering goes through a body from front to back, so the operations of a body are those of all that
stands before a place, those of the statement there, and those of all that stands behind it
(`Place.lowerBlock_fill`). The three are lowered apart from each other. All that the statement hands
on to what stands behind it are its own steps, which are none unless it is a declaration.
-/

set_option autoImplicit false

namespace Cuesheet

namespace Stmt

/-- What a statement does to the scope of those behind it. -/
def steps : Stmt → List Scope.Step
  | .declaration d => [.declare d]
  | .call _ | .branch .. | .loop .. | .breakLoop _ | .continueLoop _ => []

/-- What a list of statements does to the scope of those behind it. -/
def stepsIn (body : List Stmt) : List Scope.Step := body.flatMap steps

/-- Only declarations change the scope for what stands behind. -/
theorem scopeAfter_eq_follow (scope : Scope) (s : Stmt) :
    s.scopeAfter scope = scope.follow s.steps := by
  cases s <;> rfl

/-- A list is lowered from front to back, and its second part in the scope that the first one
leaves. -/
theorem lowerBlock_append (here : Surroundings) :
    ∀ (body others : List Stmt) (scope : Scope),
      lowerBlock here scope (body ++ others) = (do
        let first ← lowerBlock here scope body
        let second ← lowerBlock here (scope.follow (stepsIn body)) others
        return first ++ second)
  | [], others, scope => by
    rw [lowerBlock, Except.ok_bind]
    exact (bind_pure _).symm
  | s :: body, others, scope => by
    rw [List.cons_append, lowerBlock, lowerBlock, lowerBlock_append here body]
    simp only [stepsIn, List.flatMap_cons, Scope.follow_append, scopeAfter_eq_follow, bind_assoc,
      pure_bind, List.append_assoc]

end Stmt

/-! ## Branches and loops with a body taken out -/

/-- A branch without one of its bodies, or a loop without its body. -/
inductive Frame where
  | inThen (condition : Expr) (elseBody : Option (List Stmt)) (location : Location)
  | inElse (condition : Expr) (thenBody : List Stmt) (location : Location)
  | inLoop (item : String) (collection : Expr) (location : Location)

namespace Frame

/-- The statement that has the given body in the frame's place. -/
def around (body : List Stmt) : Frame → Stmt
  | inThen condition elseBody l => .branch condition body elseBody l
  | inElse condition thenBody l => .branch condition thenBody (some body) l
  | inLoop item collection l => .loop item collection body l

/-- How the scope of the body comes from that of the statement. -/
def step : Frame → Scope.Step
  | inThen .. | inElse .. => .enterBlock
  | inLoop item _ _ => .enterLoop item

/-- The operations of the statement that stand before those of the body. -/
def lowerStart (here : Surroundings) (scope : Scope) : Frame → Lowered (List DraftOperation)
  | inThen condition _ l => do
    let expression ← condition.condition scope
    return [⟨l, "when", [("expression", .string expression)]⟩]
  | inElse condition thenBody l => do
    let expression ← condition.condition scope
    let first ← Stmt.lowerBlock here scope.enterBlock thenBody
    return ⟨l, "when", [("expression", .string expression)]⟩ :: (first ++ [⟨l, "otherwise", []⟩])
  | inLoop item collection l => do
    let items ← collection.lower scope
    return [⟨l, "forEach", [("collection", items), ("itemName", .string item)]⟩]

/-- The operations of the statement that stand behind those of the body. -/
def lowerFinish (here : Surroundings) (scope : Scope) : Frame → Lowered (List DraftOperation)
  | inThen _ elseBody l => do
    let second ← Stmt.lowerElse here scope l elseBody
    return second ++ [⟨l, "endWhen", []⟩]
  | inElse _ _ l => return [⟨l, "endWhen", []⟩]
  | inLoop _ _ l => return [⟨l, "endForEach", []⟩]

/-- The operations of a branch or a loop stand around those of its body. Each of the three frames is
one way in which a body can be taken out of a statement. -/
theorem lower_around (here : Surroundings) (scope : Scope) (frame : Frame) (body : List Stmt) :
    (frame.around body).lower here scope = (do
      let start ← frame.lowerStart here scope
      let inner ← Stmt.lowerBlock here (scope.take frame.step) body
      let finish ← frame.lowerFinish here scope
      return start ++ inner ++ finish) := by
  cases frame with
  | inThen condition elseBody l =>
    simp only [around, Stmt.lower, lowerStart, lowerFinish, step, Scope.take, bind_assoc, pure_bind,
      List.append_assoc, List.singleton_append]
  | inElse condition thenBody l =>
    simp only [around, Stmt.lower, Stmt.lowerElse, lowerStart, lowerFinish, step, Scope.take,
      bind_assoc, pure_bind, List.append_assoc, List.cons_append, List.nil_append]
  | inLoop item collection l =>
    simp only [around, Stmt.lower, lowerStart, lowerFinish, step, Scope.take, bind_assoc, pure_bind,
      List.append_assoc, List.singleton_append]

end Frame

/-! ## Places -/

/-- A body with one statement taken out. -/
inductive Place where
  | top (before behind : List Stmt)
  | inside (before : List Stmt) (frame : Frame) (inner : Place) (behind : List Stmt)

namespace Place

/-- The body that has the given statement at the place. -/
def fill (s : Stmt) : Place → List Stmt
  | top before behind => before ++ s :: behind
  | inside before frame inner behind => before ++ frame.around (inner.fill s) :: behind

/-- How the scope at the place comes from that of the body. -/
def steps : Place → List Scope.Step
  | top before _ => Stmt.stepsIn before
  | inside before frame inner _ => Stmt.stepsIn before ++ frame.step :: inner.steps

/-- The operations of all that stands before the place. -/
def lowerBefore (here : Surroundings) (scope : Scope) : Place → Lowered (List DraftOperation)
  | top before _ => Stmt.lowerBlock here scope before
  | inside before frame inner _ => do
    let scope' := scope.follow (Stmt.stepsIn before)
    let first ← Stmt.lowerBlock here scope before
    let start ← frame.lowerStart here scope'
    let others ← inner.lowerBefore here (scope'.take frame.step)
    return first ++ start ++ others

/-- The operations of all that stands behind the place, where the statement at the place takes the
given steps. -/
def lowerBehind (here : Surroundings) (scope : Scope) (own : List Scope.Step) :
    Place → Lowered (List DraftOperation)
  | top before behind => Stmt.lowerBlock here (scope.follow (Stmt.stepsIn before ++ own)) behind
  | inside before frame inner behind => do
    let scope' := scope.follow (Stmt.stepsIn before)
    let others ← inner.lowerBehind here (scope'.take frame.step) own
    let finish ← frame.lowerFinish here scope'
    let last ← Stmt.lowerBlock here scope' behind
    return others ++ finish ++ last

theorem steps_around (frame : Frame) (body : List Stmt) : (frame.around body).steps = [] := by
  cases frame <;> rfl

/-- **A body is lowered in three parts:** what stands before a place, the statement there, and what
stands behind it. The parts are lowered in this order, so the first of them that cannot be lowered
gives the error. By induction on the place. -/
theorem lowerBlock_fill (here : Surroundings) (s : Stmt) : ∀ (place : Place) (scope : Scope),
    Stmt.lowerBlock here scope (place.fill s) = (do
      let before ← place.lowerBefore here scope
      let inner ← s.lower here (scope.follow place.steps)
      let behind ← place.lowerBehind here scope s.steps
      return before ++ inner ++ behind)
  | top before behind, scope => by
    rw [fill, Stmt.lowerBlock_append, Stmt.lowerBlock]
    simp only [lowerBefore, lowerBehind, steps, Scope.follow_append, Stmt.scopeAfter_eq_follow,
      bind_assoc, pure_bind, List.append_assoc]
  | inside before frame inner behind, scope => by
    rw [fill, Stmt.lowerBlock_append, Stmt.lowerBlock, Frame.lower_around,
      lowerBlock_fill here s inner]
    -- What follows only moves brackets: the statement around the inner place takes no steps.
    simp only [lowerBefore, lowerBehind, steps, Scope.follow_append, Scope.follow_cons,
      Scope.follow_nil, Stmt.scopeAfter_eq_follow, steps_around, bind_assoc, pure_bind,
      List.append_assoc]

end Place

end Cuesheet
