import Cuesheet.Proofs.Sites.Block

/-!
# Branches and loops as brackets

A lowered list of operations is flat. Its marks say what was nested: `when`, `otherwise` and
`endWhen` for a branch, `forEach` and `endForEach` for a loop. This file reads the marks as
brackets. `BlockTree.Reads` is the grammar, `BlockTree.read` reads a list by it with a stack of open
blocks, and the two agree (`BlockTree.read_eq_some_iff`), so a list is read in one way or not at
all.

Reading undoes lowering: the tree that is read has the branches and loops of the source, no more and
no fewer. `Shaped` says it of a list of operations, with one lemma for every way in which lowering
puts such lists together. It cannot hold where a body calls an operation of the catalogue that is
itself a mark, so bodies are asked not to.

Jumps are no brackets, but belong into loops. The body of a loop is lowered like any other body, in
a scope that stands in the loop, and what comes of it has no `forEach` of its own around it. So a
body can have loose jumps, in no loop of the body. Lowering keeps them as they are, and lets them
through only where the scope stands in a loop.
-/

set_option autoImplicit false

namespace Cuesheet

/-- The names of the operations that open, divide and close blocks. -/
def bracketNames : List String := ["when", "otherwise", "endWhen", "forEach", "endForEach"]

/-- The names of the operations that leave a pass through a loop. -/
def jumpNames : List String := ["breakForEach", "continueForEach"]

/-- A list of operations read by its marks is a list of these. -/
inductive BlockTree where
  | step (o : DraftOperation)
  /-- A branch without an `otherwise`. -/
  | branch (start : DraftOperation) (first : List BlockTree) (finish : DraftOperation)
  /-- A branch with an `otherwise`. -/
  | choice (start : DraftOperation) (first : List BlockTree) (middle : DraftOperation)
      (second : List BlockTree) (finish : DraftOperation)
  | loop (start : DraftOperation) (body : List BlockTree) (finish : DraftOperation)

namespace BlockTree

/-! ## The grammar -/

/-- The operations are the trees, written out with their marks. -/
inductive Reads : List DraftOperation → List BlockTree → Prop
  | nil : Reads [] []
  | step {o : DraftOperation} {ops : List DraftOperation} {trees : List BlockTree}
      (h : o.name ∉ bracketNames) (hrest : Reads ops trees) : Reads (o :: ops) (.step o :: trees)
  | branch {start finish : DraftOperation} {inner ops : List DraftOperation}
      {first trees : List BlockTree} (hstart : start.name = "when") (hfirst : Reads inner first)
      (hfinish : finish.name = "endWhen") (hrest : Reads ops trees) :
      Reads (start :: (inner ++ finish :: ops)) (.branch start first finish :: trees)
  | choice {start middle finish : DraftOperation} {inner other ops : List DraftOperation}
      {first second trees : List BlockTree} (hstart : start.name = "when")
      (hfirst : Reads inner first) (hmiddle : middle.name = "otherwise")
      (hsecond : Reads other second) (hfinish : finish.name = "endWhen") (hrest : Reads ops trees) :
      Reads (start :: (inner ++ middle :: (other ++ finish :: ops)))
        (.choice start first middle second finish :: trees)
  | loop {start finish : DraftOperation} {inner ops : List DraftOperation}
      {body trees : List BlockTree} (hstart : start.name = "forEach") (hbody : Reads inner body)
      (hfinish : finish.name = "endForEach") (hrest : Reads ops trees) :
      Reads (start :: (inner ++ finish :: ops)) (.loop start body finish :: trees)

theorem Reads.append {ops more : List DraftOperation} {trees others : List BlockTree}
    (h : Reads ops trees) (h' : Reads more others) : Reads (ops ++ more) (trees ++ others) := by
  induction h with
  | nil => exact h'
  | step h _ ih => exact .step h ih
  | branch hstart hfirst hfinish _ _ ih =>
    simpa using Reads.branch hstart hfirst hfinish ih
  | choice hstart hfirst hmiddle hsecond hfinish _ _ _ ih =>
    simpa using Reads.choice hstart hfirst hmiddle hsecond hfinish ih
  | loop hstart hbody hfinish _ _ ih =>
    simpa using Reads.loop hstart hbody hfinish ih

/-! ## A reader -/

/-- A block that is open: the trees before it, its marks, and the first branch once there is a
second. -/
inductive Frame where
  | branch (before : List BlockTree) (start : DraftOperation)
  | choice (before : List BlockTree) (start : DraftOperation) (first : List BlockTree)
      (middle : DraftOperation)
  | loop (before : List BlockTree) (start : DraftOperation)

/-- A reader on its way: the open blocks, innermost first, and the trees of the innermost. -/
structure Reader where
  frames : List Frame
  trees : List BlockTree

namespace Reader

/-- Takes one operation, if it can stand here. -/
def step (r : Reader) (o : DraftOperation) : Option Reader :=
  if o.name = "when" then some ⟨.branch r.trees o :: r.frames, []⟩
  else if o.name = "forEach" then some ⟨.loop r.trees o :: r.frames, []⟩
  else if o.name = "otherwise" then
    match r.frames with
    | .branch before start :: frames => some ⟨.choice before start r.trees o :: frames, []⟩
    | _ => none
  else if o.name = "endWhen" then
    match r.frames with
    | .branch before start :: frames => some ⟨frames, before ++ [.branch start r.trees o]⟩
    | .choice before start first middle :: frames =>
      some ⟨frames, before ++ [.choice start first middle r.trees o]⟩
    | _ => none
  else if o.name = "endForEach" then
    match r.frames with
    | .loop before start :: frames => some ⟨frames, before ++ [.loop start r.trees o]⟩
    | _ => none
  else some ⟨r.frames, r.trees ++ [.step o]⟩

def run (r : Reader) (ops : List DraftOperation) : Option Reader := ops.foldlM step r

/-- The trees, if no block is open. -/
def finish : Reader → Option (List BlockTree)
  | ⟨[], trees⟩ => some trees
  | ⟨_ :: _, _⟩ => none

end Reader

/-- The trees of a list of operations, if its marks are in order. -/
def read (ops : List DraftOperation) : Option (List BlockTree) :=
  (Reader.run ⟨[], []⟩ ops).bind Reader.finish

/-- Inside any open blocks, what the grammar allows is read, and the blocks stay open. -/
theorem Reads.run_eq {ops : List DraftOperation} {trees : List BlockTree} (h : Reads ops trees) :
    ∀ (frames : List Frame) (before : List BlockTree),
      Reader.run ⟨frames, before⟩ ops = some ⟨frames, before ++ trees⟩ := by
  unfold Reader.run
  induction h with
  | nil => simp
  | step hname _ ih =>
    intro frames before
    simp only [bracketNames, List.mem_cons, List.not_mem_nil, or_false, not_or] at hname
    simp [Reader.step, hname, ih]
  | branch hstart _ hfinish _ ihfirst ih =>
    intro frames before
    simp [Reader.step, hstart, hfinish, ihfirst, ih]
  | choice hstart _ hmiddle _ hfinish _ ihfirst ihsecond ih =>
    intro frames before
    simp [Reader.step, hstart, hmiddle, hfinish, ihfirst, ihsecond, ih]
  | loop hstart _ hfinish _ ihbody ih =>
    intro frames before
    simp [Reader.step, hstart, hfinish, ihbody, ih]

/-- The operations that a reader has taken: those of the open blocks, from the outside in. -/
inductive Taken : Reader → List DraftOperation → Prop
  | flat {trees : List BlockTree} {ops : List DraftOperation} (h : Reads ops trees) :
      Taken ⟨[], trees⟩ ops
  | branch {frames : List Frame} {before trees : List BlockTree} {start : DraftOperation}
      {outer ops : List DraftOperation} (houter : Taken ⟨frames, before⟩ outer)
      (hstart : start.name = "when") (h : Reads ops trees) :
      Taken ⟨.branch before start :: frames, trees⟩ (outer ++ start :: ops)
  | choice {frames : List Frame} {before first trees : List BlockTree}
      {start middle : DraftOperation} {outer inner ops : List DraftOperation}
      (houter : Taken ⟨frames, before⟩ outer) (hstart : start.name = "when")
      (hfirst : Reads inner first) (hmiddle : middle.name = "otherwise") (h : Reads ops trees) :
      Taken ⟨.choice before start first middle :: frames, trees⟩
        (outer ++ start :: (inner ++ middle :: ops))
  | loop {frames : List Frame} {before trees : List BlockTree} {start : DraftOperation}
      {outer ops : List DraftOperation} (houter : Taken ⟨frames, before⟩ outer)
      (hstart : start.name = "forEach") (h : Reads ops trees) :
      Taken ⟨.loop before start :: frames, trees⟩ (outer ++ start :: ops)

theorem Taken.append {frames : List Frame} {trees others : List BlockTree}
    {ops more : List DraftOperation} (h : Taken ⟨frames, trees⟩ ops) (h' : Reads more others) :
    Taken ⟨frames, trees ++ others⟩ (ops ++ more) := by
  cases h with
  | flat h => exact .flat (h.append h')
  | branch houter hstart h => simpa using Taken.branch houter hstart (h.append h')
  | choice houter hstart hfirst hmiddle h =>
    simpa using Taken.choice houter hstart hfirst hmiddle (h.append h')
  | loop houter hstart h => simpa using Taken.loop houter hstart (h.append h')

/-- An operation that the reader takes is added to those it has taken. A mark that closes a block
turns the innermost one into a tree of the block around it. -/
theorem Taken.step {r r' : Reader} {ops : List DraftOperation} {o : DraftOperation}
    (h : Taken r ops) (hstep : r.step o = some r') : Taken r' (ops ++ [o]) := by
  unfold Reader.step at hstep
  -- The names are tried in the order of the definition. A mark is taken only where the innermost
  -- open block can take it, so most cases are refuted by the step itself.
  split at hstep
  · rename_i hwhen
    cases hstep
    exact .branch h hwhen .nil
  split at hstep
  · rename_i hforEach
    cases hstep
    exact .loop h hforEach .nil
  split at hstep
  · rename_i hotherwise
    cases h with
    | branch houter hstart hfirst =>
      cases hstep
      simpa using Taken.choice houter hstart hfirst hotherwise .nil
    | flat | choice | loop => cases hstep
  split at hstep
  · rename_i hendWhen
    cases h with
    | branch houter hstart hfirst =>
      cases hstep
      simpa using houter.append (.branch hstart hfirst hendWhen .nil)
    | choice houter hstart hfirst hmiddle hsecond =>
      cases hstep
      simpa using houter.append (.choice hstart hfirst hmiddle hsecond hendWhen .nil)
    | flat | loop => cases hstep
  split at hstep
  · rename_i hendForEach
    cases h with
    | loop houter hstart hbody =>
      cases hstep
      simpa using houter.append (.loop hstart hbody hendForEach .nil)
    | flat | branch | choice => cases hstep
  · -- Any other operation stays in the block that is open.
    rename_i hwhen hforEach hotherwise hendWhen hendForEach
    cases hstep
    apply h.append
    exact .step (by simp [bracketNames, hwhen, hotherwise, hendWhen, hforEach, hendForEach]) .nil

theorem Taken.run {r' : Reader} : ∀ (ops : List DraftOperation) {r : Reader}
    {before : List DraftOperation}, Taken r before → r.run ops = some r' → Taken r' (before ++ ops)
  | [], r, before, h, hrun => by
    cases hrun
    simpa using h
  | o :: ops, r, before, h, hrun => by
    obtain ⟨next, hstep, hrun⟩ := Option.bind_eq_some_iff.1 hrun
    simpa using Taken.run ops (h.step hstep) hrun

/-- **The reader reads by the grammar**, so there is at most one way to read a list. -/
theorem read_eq_some_iff {ops : List DraftOperation} {trees : List BlockTree} :
    read ops = some trees ↔ Reads ops trees := by
  constructor
  · intro h
    obtain ⟨⟨frames, read⟩, hrun, hfinish⟩ := Option.bind_eq_some_iff.1 h
    have htaken : Taken ⟨frames, read⟩ ([] ++ ops) := Taken.run ops (.flat .nil) hrun
    cases htaken with
    | flat hreads =>
      cases hfinish
      exact hreads
    | branch | choice | loop => cases hfinish
  · intro h
    simp [BlockTree.read, h.run_eq, Reader.finish]

end BlockTree

/-! ## The nesting of a body, and of the trees that are read -/

/-- What is left of a body when only its branches and loops are looked at, in order. -/
inductive Nesting where
  /-- The second branch may be there and be empty. -/
  | branch (location : Location) (first : List Nesting) (second : Option (List Nesting))
  | loop (location : Location) (body : List Nesting)

namespace Stmt

mutual

def nesting : Stmt → List Nesting
  | .branch _ thenBody elseBody l => [.branch l (nestingIn thenBody) (nestingInElse elseBody)]
  | .loop _ _ body l => [.loop l (nestingIn body)]
  | .call _ | .declaration _ | .breakLoop _ | .continueLoop _ => []

def nestingIn : List Stmt → List Nesting
  | [] => []
  | s :: rest => nesting s ++ nestingIn rest

def nestingInElse : Option (List Stmt) → Option (List Nesting)
  | none => none
  | some body => some (nestingIn body)

end

mutual

/-- The jumps of a statement that stand in no loop of it: where they are, and which mark they
become. All that a loop has in it is left out. -/
def looseJumps : Stmt → List (Location × String)
  | .breakLoop l => [(l, "breakForEach")]
  | .continueLoop l => [(l, "continueForEach")]
  | .branch _ thenBody elseBody _ => looseJumpsIn thenBody ++ looseJumpsInElse elseBody
  | .call _ | .declaration _ | .loop .. => []

def looseJumpsIn : List Stmt → List (Location × String)
  | [] => []
  | s :: rest => looseJumps s ++ looseJumpsIn rest

def looseJumpsInElse : Option (List Stmt) → List (Location × String)
  | none => []
  | some body => looseJumpsIn body

end

end Stmt

namespace BlockTree

mutual

def nesting : BlockTree → List Nesting
  | .step _ => []
  | .branch start first _ => [.branch start.id (nestingIn first) none]
  | .choice start first _ second _ =>
    [.branch start.id (nestingIn first) (some (nestingIn second))]
  | .loop start body _ => [.loop start.id (nestingIn body)]

def nestingIn : List BlockTree → List Nesting
  | [] => []
  | t :: rest => nesting t ++ nestingIn rest

end

@[simp]
theorem nestingIn_append (trees others : List BlockTree) :
    nestingIn (trees ++ others) = nestingIn trees ++ nestingIn others := by
  induction trees with
  | nil => simp [nestingIn]
  | cons t rest ih => simp [nestingIn, ih]

mutual

/-- The jumps that stand in no loop of the tree, with the places they come from. -/
def looseJumps : BlockTree → List (Location × String)
  | .step o => if o.name ∈ jumpNames then [(o.id, o.name)] else []
  | .branch _ first _ => looseJumpsIn first
  | .choice _ first _ second _ => looseJumpsIn first ++ looseJumpsIn second
  | .loop .. => []

def looseJumpsIn : List BlockTree → List (Location × String)
  | [] => []
  | t :: rest => looseJumps t ++ looseJumpsIn rest

end

@[simp]
theorem looseJumpsIn_append (trees others : List BlockTree) :
    looseJumpsIn (trees ++ others) = looseJumpsIn trees ++ looseJumpsIn others := by
  induction trees with
  | nil => simp [looseJumpsIn]
  | cons t rest ih => simp [looseJumpsIn, ih]

end BlockTree

/-! ## What each statement adds -/

/-- The operations can be read, their tree is nested like this, and these are its loose jumps. There
are none unless `inside` says that the operations stand in a loop. -/
def Shaped (inside : Bool) (ops : List DraftOperation) (nesting : List Nesting)
    (jumps : List (Location × String)) : Prop :=
  ∃ trees, BlockTree.Reads ops trees ∧ BlockTree.nestingIn trees = nesting ∧
    BlockTree.looseJumpsIn trees = jumps ∧ (inside = false → jumps = [])

namespace Shaped

variable {inside : Bool} {ops more : List DraftOperation} {nesting others : List Nesting}
  {jumps later : List (Location × String)}

theorem nil : Shaped inside [] [] [] := ⟨[], .nil, rfl, rfl, fun _ => rfl⟩

theorem append (h : Shaped inside ops nesting jumps) (h' : Shaped inside more others later) :
    Shaped inside (ops ++ more) (nesting ++ others) (jumps ++ later) := by
  obtain ⟨trees, hreads, rfl, rfl, hloose⟩ := h
  obtain ⟨trees', hreads', rfl, rfl, hloose'⟩ := h'
  refine ⟨trees ++ trees', hreads.append hreads', by simp, by simp, ?_⟩
  intro houtside
  rw [hloose houtside, hloose' houtside, List.append_nil]

/-- A jump is a loose one until a loop is put around it. -/
theorem jump {o : DraftOperation} (h : o.name ∉ bracketNames) (hjump : o.name ∈ jumpNames) :
    Shaped true [o] [] [(o.id, o.name)] := by
  refine ⟨[.step o], .step h .nil, rfl, ?_, nofun⟩
  simp [BlockTree.looseJumpsIn, BlockTree.looseJumps, hjump]

theorem steps : ∀ {ops : List DraftOperation},
    (∀ o ∈ ops, o.name ∉ bracketNames ++ jumpNames) → Shaped inside ops [] []
  | [], _ => nil
  | o :: ops, h => by
    have hname := h o (List.mem_cons_self ..)
    rw [List.mem_append, not_or] at hname
    have hfirst : Shaped inside [o] [] [] := by
      refine ⟨[.step o], .step hname.1 .nil, rfl, ?_, fun _ => rfl⟩
      simp [BlockTree.looseJumpsIn, BlockTree.looseJumps, hname.2]
    have hrest : Shaped inside ops [] [] := steps fun o ho => h o (List.mem_cons_of_mem _ ho)
    exact hfirst.append hrest

theorem branch {l : Location} {data closing : Dict Json} (h : Shaped inside ops nesting jumps) :
    Shaped inside (⟨l, "when", data⟩ :: (ops ++ [⟨l, "endWhen", closing⟩]))
      [.branch l nesting none] jumps := by
  obtain ⟨trees, hreads, rfl, rfl, hloose⟩ := h
  refine ⟨_, .branch rfl hreads rfl .nil, rfl, ?_, hloose⟩
  simp [BlockTree.looseJumpsIn, BlockTree.looseJumps]

theorem choice {l : Location} {data middle closing : Dict Json}
    (h : Shaped inside ops nesting jumps) (h' : Shaped inside more others later) :
    Shaped inside
      (⟨l, "when", data⟩ ::
        (ops ++ ⟨l, "otherwise", middle⟩ :: (more ++ [⟨l, "endWhen", closing⟩])))
      [.branch l nesting (some others)] (jumps ++ later) := by
  obtain ⟨trees, hreads, rfl, rfl, hloose⟩ := h
  obtain ⟨trees', hreads', rfl, rfl, hloose'⟩ := h'
  refine ⟨_, .choice rfl hreads rfl hreads' rfl .nil, rfl, ?_, ?_⟩
  · simp [BlockTree.looseJumpsIn, BlockTree.looseJumps]
  · intro houtside
    rw [hloose houtside, hloose' houtside, List.append_nil]

/-- The jumps of a loop's body are inside the loop, so none of them is loose any more, wherever the
loop stands. -/
theorem loop {l : Location} {data closing : Dict Json} (h : Shaped true ops nesting jumps) :
    Shaped inside (⟨l, "forEach", data⟩ :: (ops ++ [⟨l, "endForEach", closing⟩]))
      [.loop l nesting] [] := by
  obtain ⟨trees, hreads, rfl, -, -⟩ := h
  exact ⟨_, .loop rfl hreads rfl .nil, rfl, rfl, fun _ => rfl⟩

end Shaped

/-- Whether a call by this name is lowered to a mark: no action has the name, and the catalogue
has it among the operations of control flow. -/
def Surroundings.isMark (here : Surroundings) (name : String) : Bool :=
  (here.action? name).isNone &&
    (Catalogue.lookup? name).any fun op => op.category = .controlFlow

/-- The catalogue lists every mark as an operation of control flow. -/
theorem Catalogue.category_of_mark : ∀ op ∈ Catalogue.operations,
    op.name ∈ bracketNames ++ jumpNames → op.category = .controlFlow := by
  decide

theorem invoke_names {scope : Scope} {name : String} {action : Action} {arguments : List Expr}
    {half : CallHalf} {l : Location} {ops : List DraftOperation}
    (h : invoke scope name action arguments half l = .ok ops) :
    ∀ o ∈ ops, o.name ∉ bracketNames ++ jumpNames := by
  unfold invoke at h
  split at h
  · cases h
  · obtain ⟨data, -, h⟩ := Except.bind_ok h
    cases h
    cases half <;> simp [CallHalf.operation, bracketNames, jumpNames]

theorem Call.lower_shaped {here : Surroundings} {scope : Scope} {c : Call} {inside : Bool}
    {ops : List DraftOperation} (hmark : here.isMark c.name = false)
    (h : c.lower here scope = .ok ops) : Shaped inside ops [] [] := by
  apply Shaped.steps
  unfold Call.lower at h
  cases haction : here.action? c.name with
  | some found =>
    rw [haction] at h
    exact invoke_names h
  | none =>
    rw [haction] at h
    cases hop : Catalogue.lookup? c.name with
    | none => rw [hop] at h; cases h
    | some op =>
      rw [hop] at h
      obtain ⟨values, -, h⟩ := Except.bind_ok h
      split at h
      · cases h
        intro o ho
        rw [List.mem_singleton.1 ho]
        intro hname
        -- An operation with the name of a mark would be a mark.
        have hcategory := Catalogue.category_of_mark op (List.mem_of_find?_eq_some hop) hname
        simp [Surroundings.isMark, haction, hop, hcategory] at hmark
      · cases h

theorem Declaration.lower_shaped {scope : Scope} {d : Declaration} {inside : Bool}
    {ops : List DraftOperation} (h : d.lower scope = .ok ops) : Shaped inside ops [] [] := by
  obtain ⟨value, -, h⟩ := Except.bind_ok h
  apply Shaped.steps
  split at h
  · cases h
    simp
  · cases h
    simp [bracketNames, jumpNames]

/-- A jump is lowered inside loops only, so it may stand where the scope says that there is one. -/
theorem loopOperation_shaped {scope : Scope} {keyword operation : String} {l : Location}
    {ops : List DraftOperation} (hname : operation ∉ bracketNames) (hjump : operation ∈ jumpNames)
    (h : loopOperation scope keyword operation l = .ok ops) :
    Shaped scope.loopItem?.isSome ops [] [(l, operation)] := by
  unfold loopOperation at h
  split at h
  · rename_i hloop
    cases h
    rw [hloop]
    exact .jump hname hjump
  · cases h

namespace Stmt

/-- No statement opens a loop for those behind it. -/
theorem loopItem?_scopeAfter (scope : Scope) (s : Stmt) :
    (s.scopeAfter scope).loopItem? = scope.loopItem? := by
  cases s with
  | declaration d =>
    simp only [scopeAfter, Scope.declare]
    split <;> rfl
  | _ => rfl

mutual

theorem lower_shaped (here : Surroundings) : ∀ (s : Stmt) {scope : Scope}
    {ops : List DraftOperation}, (∀ name ∈ calledNames s, here.isMark name = false) →
    lower here scope s = .ok ops →
    Shaped scope.loopItem?.isSome ops (nesting s) (looseJumps s)
  | .call c, _, _, hcalls, h => by
    rw [lower] at h
    exact Call.lower_shaped (hcalls c.name (by simp [calledNames])) h
  | .declaration d, _, _, _, h => by
    rw [lower] at h
    exact Declaration.lower_shaped h
  | .branch condition thenBody elseBody l, scope, ops, hcalls, h => by
    simp only [calledNames, List.mem_append, or_imp, forall_and] at hcalls
    obtain ⟨text, first, second, -, hfirst, hsecond, rfl⟩ := lower_branch_ok h
    have hthen := lowerBlock_shaped here thenBody hcalls.1 hfirst
    -- `otherwise` is emitted by the second branch, but is a part of the first one's brackets.
    cases elseBody with
    | none =>
      rw [lowerElse] at hsecond
      cases hsecond
      rw [looseJumps, looseJumpsInElse, List.append_nil, List.append_nil]
      exact hthen.branch
    | some body =>
      obtain ⟨inner, hbody, rfl⟩ := lowerElse_some_ok hsecond
      rw [List.append_assoc]
      exact hthen.choice (lowerBlock_shaped here body hcalls.2 hbody)
  | .loop item collection body l, scope, ops, hcalls, h => by
    obtain ⟨items, inner, -, hinner, rfl⟩ := lower_loop_ok h
    exact Shaped.loop (lowerBlock_shaped here body hcalls hinner)
  | .breakLoop l, _, _, _, h => by
    rw [lower] at h
    exact loopOperation_shaped (by decide) (by decide) h
  | .continueLoop l, _, _, _, h => by
    rw [lower] at h
    exact loopOperation_shaped (by decide) (by decide) h

theorem lowerBlock_shaped (here : Surroundings) : ∀ (body : List Stmt) {scope : Scope}
    {ops : List DraftOperation}, (∀ name ∈ calledNamesIn body, here.isMark name = false) →
    lowerBlock here scope body = .ok ops →
    Shaped scope.loopItem?.isSome ops (nestingIn body) (looseJumpsIn body)
  | [], _, _, _, h => by
    rw [lowerBlock] at h
    cases h
    exact .nil
  | s :: rest, scope, _, hcalls, h => by
    simp only [calledNamesIn, List.mem_append, or_imp, forall_and] at hcalls
    obtain ⟨first, others, hfirst, hothers, rfl⟩ := lowerBlock_cons_ok h
    have hrest := lowerBlock_shaped here rest hcalls.2 hothers
    rw [loopItem?_scopeAfter] at hrest
    exact (lower_shaped here s hcalls.1 hfirst).append hrest

end

/-- **Reading the marks as brackets undoes lowering.** The operations of a body are read in exactly
one way. What is read has a branch for every branch of the body and a loop for every loop, in the
same order and depth, with an `otherwise` exactly where there is a second branch, be it empty. The
jumps that are read in no loop are those that stand in no loop of the body, one for each and in
their order. There are none unless the scope of the body stands in a loop itself. -/
theorem lowerBlock_brackets {here : Surroundings} {scope : Scope} {body : List Stmt}
    {ops : List DraftOperation} (hcalls : ∀ name ∈ calledNamesIn body, here.isMark name = false)
    (h : lowerBlock here scope body = .ok ops) :
    ∃ trees, BlockTree.read ops = some trees ∧
      (∀ other, BlockTree.Reads ops other ↔ other = trees) ∧
      BlockTree.nestingIn trees = nestingIn body ∧
      BlockTree.looseJumpsIn trees = looseJumpsIn body ∧
      (scope.loopItem? = none → BlockTree.looseJumpsIn trees = []) := by
  obtain ⟨trees, hreads, hnesting, hjumps, hloose⟩ := lowerBlock_shaped here body hcalls h
  have hread := BlockTree.read_eq_some_iff.2 hreads
  refine ⟨trees, hread, ?_, hnesting, hjumps, ?_⟩
  · intro other
    rw [← BlockTree.read_eq_some_iff, hread, Option.some.injEq, eq_comm]
  · intro hscope
    rw [hjumps]
    exact hloose (by rw [hscope, Option.isSome_none])

end Stmt

namespace Slides

/-- A program with one action, whose name is that of a mark. -/
def here : Surroundings where
  callables := ⟨Callable.definitions .program [⟨"when", [], .regular [], .onLine 1⟩], []⟩
  origin := .program

/-- A loop that is left early, with an empty second branch, and a branch without a second one that
calls the action. -/
def body : List Stmt := [
  .loop "slide" (.array [] (.onLine 2)) [
    .declaration ⟨"late", .system "time" (.onLine 3), .onLine 3⟩,
    .branch (.variable "late" (.onLine 4)) [.breakLoop (.onLine 5)] (some []) (.onLine 4)]
      (.onLine 2),
  .branch (.boolean true (.onLine 6)) [.call ⟨"when", [], .onLine 7⟩] none (.onLine 6),
  .call ⟨"clearElement", [], .onLine 8⟩]

end Slides

/-- A call of an action named like a mark is lowered to no mark, and the brackets are read as the
body nests them. -/
theorem Stmt.lowerBlock_brackets_slides :
    ∃ ops trees, lowerBlock Slides.here (.top default) Slides.body = .ok ops ∧
      ops.map (·.name) = ["forEach", "setVariable", "when", "breakForEach", "otherwise", "endWhen",
        "endForEach", "when", "requestAction", "startAction", "endWhen", "clearElement"] ∧
      BlockTree.read ops = some trees ∧
      BlockTree.nestingIn trees = [
        .loop (.onLine 2) [.branch (.onLine 4) [] (some [])],
        .branch (.onLine 6) [] none] ∧
      BlockTree.looseJumpsIn trees = [] := by
  obtain ⟨ops, h, hnames⟩ := Except.exists_ok_of_map (f := List.map (·.name))
    (b := ["forEach", "setVariable", "when", "breakForEach", "otherwise", "endWhen", "endForEach",
      "when", "requestAction", "startAction", "endWhen", "clearElement"])
    (m := lowerBlock Slides.here (.top default) Slides.body) (by decide +kernel)
  have hcalls : ∀ name ∈ calledNamesIn Slides.body, Slides.here.isMark name = false := by
    decide +kernel
  obtain ⟨trees, hread, -, hnesting, -, hloose⟩ := lowerBlock_brackets hcalls h
  exact ⟨ops, trees, h, hnames, hread, hnesting.trans rfl, hloose rfl⟩

/-- It is not so that all jumps of a lowered body are read in loops, whatever the scope. The body of
a loop that does nothing but leave the loop is lowered in the scope of that loop to the jump alone,
with no `forEach` around it. -/
theorem Stmt.lowerBlock_loose_jump :
    ¬ ∀ (here : Surroundings) (scope : Scope) (body : List Stmt) (ops : List DraftOperation),
      (∀ name ∈ calledNamesIn body, here.isMark name = false) →
      lowerBlock here scope body = .ok ops →
      ∃ trees, BlockTree.read ops = some trees ∧ BlockTree.looseJumpsIn trees = [] := by
  intro h
  have hlower : lowerBlock Slides.here ((Scope.top default).enterLoop "slide")
      [.breakLoop (.onLine 5)] = .ok [⟨.onLine 5, "breakForEach", []⟩] := rfl
  obtain ⟨trees, hread, hloose⟩ := h _ _ _ _ (by simp [calledNamesIn, calledNames]) hlower
  have hstep : BlockTree.read [⟨.onLine 5, "breakForEach", []⟩] =
      some [.step ⟨.onLine 5, "breakForEach", []⟩] := rfl
  rw [hstep] at hread
  cases hread
  simp [BlockTree.looseJumpsIn, BlockTree.looseJumps, jumpNames] at hloose

end Cuesheet
