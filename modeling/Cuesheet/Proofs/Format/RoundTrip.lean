import Cuesheet.Proofs.Format.Numbers

/-!
# Programs and their JSON form

A program with finite numbers is read back from the value that it is written as. There is one lemma
for each kind of node. Expressions, times and statements are read with a budget, and the depth of
what was written is always enough: whatever stands inside a node lies at least one level deeper.

A record that can also stand in a tagged node is written as the same fields in both places, and it
is read from any object that has them (`Call.ofJson?_object` and its likes).
-/

set_option autoImplicit false

namespace Cuesheet

open Json (tagName)

/-- Each operator has its own symbol, so it can be read back from it. The same goes for the other
small enumerations below. -/
theorem BinaryOp.ofJson?_symbol (op : BinaryOp) : ofJson? (.string op.symbol) = some op := by
  cases op <;> rfl

theorem UnaryOp.ofJson?_symbol (op : UnaryOp) : ofJson? (.string op.symbol) = some op := by
  cases op <;> rfl

/-! ## Expressions -/

namespace Expr

theorem listToJson_eq_map (es : List Expr) : listToJson es = es.map toJson := by
  induction es with
  | nil => rfl
  | cons e es ih => rw [listToJson, ih, List.map_cons]

/-- A property of an object literal as JSON. -/
def propertyToJson (property : String × Expr) : Json :=
  .object [("key", .string property.1), ("value", property.2.toJson)]

theorem propertiesToJson_eq_map (properties : List (String × Expr)) :
    propertiesToJson properties = properties.map propertyToJson := by
  induction properties with
  | nil => rfl
  | cons property properties ih => rw [propertiesToJson, ih, List.map_cons, propertyToJson]

mutual

theorem read?_toJson : ∀ (e : Expr), AllFinite e.numbers → ∀ {budget : Nat},
    e.toJson.depth ≤ budget → read? budget e.toJson = some e
  | .string value l, _, budget, hbudget | .boolean value l, _, budget, hbudget
  | .parameter value l, _, budget, hbudget | .variable value l, _, budget, hbudget
  | .system value l, _, budget, hbudget => by
    rw [toJson] at hbudget ⊢
    obtain ⟨budget, rfl, -⟩ := Json.exists_budget_of_located hbudget
    refine Json.read_located (by simp [kinds]) (by simp [tagName]) (fun _ => rfl) ?_
    simp
  | .number value l, h, budget, hbudget => by
    rw [toJson] at hbudget ⊢
    obtain ⟨budget, rfl, -⟩ := Json.exists_budget_of_located hbudget
    have hvalue := Json.number?_ofFloat (h value (List.mem_singleton_self _))
    refine Json.read_located (by simp [kinds]) (by simp [tagName]) (fun _ => rfl) ?_
    simp [hvalue]
  | .null l, _, budget, hbudget => by
    rw [toJson] at hbudget ⊢
    obtain ⟨budget, rfl, -⟩ := Json.exists_budget_of_located hbudget
    exact Option.bind_eq_some_iff.mpr
      ⟨_, Json.located?_located l (by simp [kinds]) (by simp [tagName]), rfl⟩
  | .array elements l, h, budget, hbudget => by
    rw [toJson, listToJson_eq_map] at hbudget ⊢
    obtain ⟨budget, rfl, hdepth⟩ := Json.exists_budget_of_located hbudget
    rw [List.forall_mem_singleton] at hdepth
    -- The elements have one level less than the array, and the budget left over is enough for that.
    have helements := readList_toJson elements h fun e he =>
      Json.depth_le_of_mem_items hdepth _ (List.mem_map_of_mem he)
    refine Json.read_located (by simp [kinds]) (by simp [tagName]) (fun _ => rfl) ?_
    simp [Json.listOf?_map helements]
  | .object properties l, h, budget, hbudget => by
    rw [toJson, propertiesToJson_eq_map] at hbudget ⊢
    obtain ⟨budget, rfl, hdepth⟩ := Json.exists_budget_of_located hbudget
    rw [List.forall_mem_singleton] at hdepth
    have hvalues := readProperties_toJson properties h fun property hproperty =>
      Json.depth_le_of_mem_items hdepth _ (List.mem_map_of_mem hproperty)
    refine Json.read_located (by simp [kinds]) (by simp [tagName]) (fun _ => rfl) ?_
    -- Reading the list gives the properties back, since each of them is read back.
    refine Option.bind_eq_some_iff.mpr ⟨properties, ?_, rfl⟩
    refine Json.listOf?_map fun property hproperty => ?_
    refine Json.read_object (by simp) (List.Subset.refl _) ?_
    simp [hvalues property hproperty]
  | .chain root properties l, _, budget, hbudget => by
    rw [toJson] at hbudget ⊢
    obtain ⟨budget, rfl, -⟩ := Json.exists_budget_of_located hbudget
    refine Json.read_located (by simp [kinds]) (by simp [tagName]) (fun _ => rfl) ?_
    simp [Json.listOf?_ofStrings]
  | .binary op left right l, h, budget, hbudget => by
    rw [toJson] at hbudget ⊢
    rw [numbers, allFinite_append] at h
    obtain ⟨budget, rfl, hdepth⟩ := Json.exists_budget_of_located hbudget
    simp only [List.forall_mem_cons] at hdepth
    have hleft := read?_toJson left h.1 hdepth.2.1
    have hright := read?_toJson right h.2 hdepth.2.2.1
    refine Json.read_located (by simp [kinds]) (by simp [tagName]) (fun _ => rfl) ?_
    simp [BinaryOp.ofJson?_symbol, hleft, hright]
  | .unary op operand l, h, budget, hbudget => by
    rw [toJson] at hbudget ⊢
    obtain ⟨budget, rfl, hdepth⟩ := Json.exists_budget_of_located hbudget
    simp only [List.forall_mem_cons] at hdepth
    have hoperand := read?_toJson operand h hdepth.2.1
    refine Json.read_located (by simp [kinds]) (by simp [tagName]) (fun _ => rfl) ?_
    simp [UnaryOp.ofJson?_symbol, hoperand]

theorem readList_toJson : ∀ (es : List Expr), AllFinite (numbersIn es) → ∀ {budget : Nat},
    (∀ e ∈ es, e.toJson.depth ≤ budget) → ∀ e ∈ es, read? budget e.toJson = some e
  | [], _, _, _ => by simp
  | e :: rest, h, budget, hdepth => by
    rw [numbersIn, allFinite_append] at h
    rw [List.forall_mem_cons] at hdepth ⊢
    exact ⟨read?_toJson e h.1 hdepth.1, readList_toJson rest h.2 hdepth.2⟩

/-- The value of a property lies two levels below the object literal, so it is within the budget as
well. -/
theorem readProperties_toJson : ∀ (properties : List (String × Expr)),
    AllFinite (numbersInProperties properties) → ∀ {budget : Nat},
    (∀ property ∈ properties, (propertyToJson property).depth ≤ budget) →
    ∀ property ∈ properties, read? budget property.2.toJson = some property.2
  | [], _, _, _ => by simp
  | property :: rest, h, budget, hdepth => by
    rw [numbersInProperties, allFinite_append] at h
    rw [List.forall_mem_cons] at hdepth ⊢
    have hvalue : property.2.toJson.depth < (propertyToJson property).depth :=
      Json.depth_lt_of_mem_entries (List.mem_cons_of_mem _ List.mem_cons_self)
    exact ⟨read?_toJson property.2 h.1 (by omega), readProperties_toJson rest h.2 hdepth.2⟩

end

/-- **Expressions are read back.** Reading starts with the depth of the value as its budget, which
is exactly enough. -/
theorem ofJson?_toJson (e : Expr) (h : AllFinite e.numbers) : ofJson? e.toJson = some e :=
  read?_toJson e h (Nat.le_refl _)

theorem listOf?_listToJson (es : List Expr) (h : AllFinite (es.flatMap numbers)) :
    Json.listOf? ofJson? (.array (listToJson es)) = some es := by
  rw [listToJson_eq_map]
  exact Json.listOf?_map fun e he => ofJson?_toJson e (h.of_mem he)

end Expr

/-! ## Times -/

theorem TimeUnit.ofJson?_symbol (nested : Bool) (unit : TimeUnit) :
    ofJson? nested (.string unit.symbol) = some unit := by
  cases unit <;> rfl

theorem TimeOp.ofJson?_symbol (op : TimeOp) : ofJson? (.string op.symbol) = some op := by
  cases op <;> rfl

namespace TimeExpr

/-- Literal and relative times are the same record under two kinds. -/
theorem amount?_located (kind : String) {value : Float} (h : value.isFinite = true)
    (unit : TimeUnit) (l : Location) :
    amount? (.located kind [("value", .ofFloat value), ("unit", .string unit.symbol)] l) =
      some (value, unit) := by
  unfold amount?
  show (Json.fields?
    ([("value", Json.ofFloat value), ("unit", .string unit.symbol)].map (·.1)) _ >>= _) = _
  rw [Json.fields?_located kind _ l (by simp [tagName])]
  simp [Json.number?_ofFloat h, TimeUnit.ofJson?_symbol]

theorem read?_toJson : ∀ (t : TimeExpr), AllFinite t.numbers → ∀ {budget : Nat},
    t.toJson.depth ≤ budget → read? budget t.toJson = some t
  | .literal value unit l, h, budget, hbudget | .relative value unit l, h, budget, hbudget => by
    rw [toJson] at hbudget ⊢
    obtain ⟨budget, rfl, -⟩ := Json.exists_budget_of_located hbudget
    refine Option.bind_eq_some_iff.mpr
      ⟨_, Json.located?_located l (by simp [kinds]) (by simp [tagName]), ?_⟩
    refine Option.bind_eq_some_iff.mpr
      ⟨_, amount?_located _ (h value (List.mem_singleton_self _)) unit l, ?_⟩
    rfl
  | .binary op left right l, h, budget, hbudget => by
    rw [toJson] at hbudget ⊢
    rw [numbers, allFinite_append] at h
    obtain ⟨budget, rfl, hdepth⟩ := Json.exists_budget_of_located hbudget
    simp only [List.forall_mem_cons] at hdepth
    have hleft := read?_toJson left h.1 hdepth.2.1
    have hright := read?_toJson right h.2 hdepth.2.2.1
    refine Json.read_located (by simp [kinds]) (by simp [tagName]) (fun _ => rfl) ?_
    simp [TimeOp.ofJson?_symbol, hleft, hright]
  | .reference name l, _, budget, hbudget => by
    rw [toJson] at hbudget ⊢
    obtain ⟨budget, rfl, -⟩ := Json.exists_budget_of_located hbudget
    refine Json.read_located (by simp [kinds]) (by simp [tagName]) (fun _ => rfl) ?_
    simp

theorem ofJson?_toJson (t : TimeExpr) (h : AllFinite t.numbers) : ofJson? t.toJson = some t :=
  read?_toJson t h (Nat.le_refl _)

end TimeExpr

/-! ## Statements -/

theorem Declaration.ofJson?_node (kind : String) (d : Declaration) (h : AllFinite d.numbers) :
    ofJson? (.node kind d.toFields) = some d := by
  refine Json.read_object (by simp [toFields, tagName]) (List.subset_cons_self _ d.toFields) ?_
  simp [toFields, Expr.ofJson?_toJson d.value h]

namespace Call

theorem ofJson?_object (c : Call) (h : AllFinite c.numbers) {entries : List (String × Json)}
    (hnodup : (entries.map (·.1)).Nodup) (hsubset : c.toFields ⊆ entries) :
    ofJson? (.object entries) = some c := by
  refine Json.read_object hnodup hsubset ?_
  simp [toFields, Expr.listOf?_listToJson c.arguments h]

theorem ofJson?_toJson (c : Call) (h : AllFinite c.numbers) : ofJson? c.toJson = some c :=
  ofJson?_object c h (by simp [toFields]) (List.Subset.refl _)

theorem ofJson?_node (kind : String) (c : Call) (h : AllFinite c.numbers) :
    ofJson? (.node kind c.toFields) = some c :=
  ofJson?_object c h (by simp [toFields, tagName]) (List.subset_cons_self _ _)

end Call

namespace Stmt

theorem listToJson_eq_map (body : List Stmt) : listToJson body = body.map toJson := by
  induction body with
  | nil => rfl
  | cons s body ih => rw [listToJson, ih, List.map_cons]

theorem depth_le_of_mem_body {body : List Stmt} {budget : Nat}
    (h : (Json.array (listToJson body)).depth ≤ budget) : ∀ s ∈ body, s.toJson.depth ≤ budget := by
  intro s hs
  rw [listToJson_eq_map] at h
  exact Json.depth_le_of_mem_items h _ (List.mem_map_of_mem hs)

theorem listOf?_listToJson {read : Json → Option Stmt} {body : List Stmt}
    (h : ∀ s ∈ body, read s.toJson = some s) :
    Json.listOf? read (.array (listToJson body)) = some body := by
  rw [listToJson_eq_map]
  exact Json.listOf?_map h

mutual

theorem read?_toJson (nested : Bool) : ∀ (s : Stmt), AllFinite s.numbers → ∀ {budget : Nat},
    s.toJson.depth ≤ budget → read? budget nested s.toJson = some s
  | .call c, h, budget, hbudget => by
    rw [toJson] at hbudget ⊢
    obtain ⟨budget, rfl, -⟩ := Json.exists_budget_of_node hbudget
    refine Json.read_tagged (by simp [kinds]) (by simp [Call.toFields, tagName]) ?_
    exact Option.bind_eq_some_iff.mpr ⟨c, Call.ofJson?_node _ c h, rfl⟩
  | .declaration d, h, budget, hbudget => by
    rw [toJson] at hbudget ⊢
    obtain ⟨budget, rfl, -⟩ := Json.exists_budget_of_node hbudget
    refine Json.read_tagged (by simp [kinds]) (by simp [Declaration.toFields, tagName]) ?_
    exact Option.bind_eq_some_iff.mpr ⟨d, Declaration.ofJson?_node _ d h, rfl⟩
  | .branch condition thenBody elseBody l, h, budget, hbudget => by
    rw [toJson] at hbudget ⊢
    rw [numbers, allFinite_append, allFinite_append] at h
    obtain ⟨budget, rfl, hdepth⟩ := Json.exists_budget_of_node hbudget
    simp only [List.forall_mem_cons] at hdepth
    have hcondition := Expr.ofJson?_toJson condition h.1
    have hthen := listOf?_listToJson
      (readList_toJson thenBody h.2.1 (depth_le_of_mem_body hdepth.2.1))
    have helse := readElse_toJson elseBody h.2.2 hdepth.2.2.1
    refine Json.read_node (by simp [kinds]) (by simp [tagName]) (fun _ => rfl) ?_
    -- Condition and bodies are read back, and what is left is to put them together.
    simp [hcondition, hthen, helse]
  | .loop item collection body l, h, budget, hbudget => by
    rw [toJson] at hbudget ⊢
    rw [numbers, allFinite_append] at h
    obtain ⟨budget, rfl, hdepth⟩ := Json.exists_budget_of_node hbudget
    simp only [List.forall_mem_cons] at hdepth
    have hcollection := Expr.ofJson?_toJson collection h.1
    have hbody := listOf?_listToJson (readList_toJson body h.2 (depth_le_of_mem_body hdepth.2.2.1))
    refine Json.read_node (by simp [kinds]) (by simp [tagName]) (fun _ => rfl) ?_
    simp [hcollection, hbody]
  | .breakLoop l, _, budget, hbudget | .continueLoop l, _, budget, hbudget => by
    rw [toJson] at hbudget ⊢
    obtain ⟨budget, rfl, -⟩ := Json.exists_budget_of_node hbudget
    refine Json.read_node (by simp [kinds]) (by simp [tagName]) (fun _ => rfl) ?_
    simp

theorem readList_toJson : ∀ (body : List Stmt), AllFinite (numbersIn body) → ∀ {budget : Nat},
    (∀ s ∈ body, s.toJson.depth ≤ budget) → ∀ s ∈ body, read? budget true s.toJson = some s
  | [], _, _, _ => by simp
  | s :: rest, h, budget, hdepth => by
    rw [numbersIn, allFinite_append] at h
    rw [List.forall_mem_cons] at hdepth ⊢
    exact ⟨read?_toJson true s h.1 hdepth.1, readList_toJson rest h.2 hdepth.2⟩

/-- Without a second branch a null is written, and that is read as no branch. An empty branch is
written as an empty list and stays one. -/
theorem readElse_toJson : ∀ (elseBody : Option (List Stmt)), AllFinite (numbersInElse elseBody) →
    ∀ {budget : Nat}, (elseToJson elseBody).depth ≤ budget →
    Json.optional (Json.listOf? (read? budget true)) (some (elseToJson elseBody)) = some elseBody
  | none, _, _, _ => rfl
  | some body, h, budget, hbudget => by
    have hbody := listOf?_listToJson (readList_toJson body h (depth_le_of_mem_body hbudget))
    show (Json.listOf? (read? budget true) (.array (listToJson body))).map some = _
    rw [hbody]
    rfl

end

theorem ofJson?_toJson (nested : Bool) (s : Stmt) (h : AllFinite s.numbers) :
    ofJson? nested s.toJson = some s :=
  read?_toJson nested s h (Nat.le_refl _)

theorem listOfField?_toJson (body : List Stmt) (h : AllFinite (numbersIn body)) :
    listOfField? (some (.array (listToJson body))) = some body := by
  rw [numbersIn_eq_flatMap] at h
  exact listOf?_listToJson fun s hs => ofJson?_toJson true s (h.of_mem hs)

end Stmt

/-! ## Actions -/

theorem ActionParameter.ofJson?_toJson (p : ActionParameter) : ofJson? p.toJson = some p := by
  refine Json.read_object (by simp) (List.Subset.refl _) ?_
  simp

theorem ActionParameter.listOfField?_toJson (parameters : List ActionParameter) :
    listOfField? (some (.array (parameters.map (·.toJson)))) = some parameters :=
  Json.listOf?_map fun p _ => p.ofJson?_toJson

/-- Regular and endable actions are nodes of two kinds, with one body or with two. -/
theorem ActionBody.ofJson?_toJson (nested : Bool) (b : ActionBody) (h : AllFinite b.numbers) :
    ofJson? nested b.toJson = some b := by
  cases b with
  | regular operations =>
    refine Json.read_node (by simp [kinds]) (by simp [tagName]) (fun _ => rfl) ?_
    simp [Stmt.listOfField?_toJson operations h]
  | endable start finish =>
    rw [numbers, allFinite_append] at h
    refine Json.read_node (by simp [kinds]) (by simp [tagName]) (fun _ => rfl) ?_
    simp [Stmt.listOfField?_toJson start h.1, Stmt.listOfField?_toJson finish h.2]

namespace Action

theorem ofJson?_object (nested : Bool) (a : Action) (h : AllFinite a.numbers)
    {entries : List (String × Json)} (hnodup : (entries.map (·.1)).Nodup)
    (hsubset : a.toFields ⊆ entries) : ofJson? nested (.object entries) = some a := by
  refine Json.read_object hnodup hsubset ?_
  simp [toFields, ActionParameter.listOfField?_toJson, ActionBody.ofJson?_toJson nested a.body h]

theorem ofJson?_toJson (nested : Bool) (a : Action) (h : AllFinite a.numbers) :
    ofJson? nested a.toJson = some a :=
  ofJson?_object nested a h (by simp [toFields]) (List.Subset.refl _)

theorem ofJson?_node (kind : String) (nested : Bool) (a : Action) (h : AllFinite a.numbers) :
    ofJson? nested (.node kind a.toFields) = some a :=
  ofJson?_object nested a h (by simp [toFields, tagName]) (List.subset_cons_self _ _)

end Action

theorem EventAction.ofJson?_node (kind : String) (a : EventAction) (h : AllFinite a.numbers) :
    ofJson? (.node kind a.toFields) = some a := by
  refine Json.read_object (by simp [toFields, tagName]) (List.subset_cons_self _ a.toFields) ?_
  simp [toFields, ActionParameter.listOfField?_toJson, Stmt.listOfField?_toJson a.operations h]

/-! ## Timelines -/

theorem TimelineAction.ofJson?_toJson (a : TimelineAction) (h : AllFinite a.numbers) :
    ofJson? a.toJson = some a := by
  cases a with
  | inline start finish =>
    rw [numbers, allFinite_append] at h
    refine Json.read_node (by simp [kinds]) (by simp [tagName]) (fun _ => rfl) ?_
    simp [Stmt.listOfField?_toJson start h.1, Stmt.listOfField?_toJson finish h.2]
  | named call =>
    refine Json.read_node (by simp [kinds]) (by simp [tagName]) (fun _ => rfl) ?_
    simp [Call.ofJson?_toJson call h]

theorem SequenceItem.ofJson?_toJson (item : SequenceItem) (h : AllFinite item.numbers) :
    ofJson? item.toJson = some item := by
  rw [numbers, allFinite_append] at h
  refine Json.read_object (by simp) (List.Subset.refl _) ?_
  simp [Call.ofJson?_toJson item.call h.1, TimeExpr.ofJson?_toJson item.duration h.2]

namespace TimelineEvent

/-- The ends of an event with times are written as a record of their own. -/
theorem range?_object (start finish : TimeExpr) (hstart : AllFinite start.numbers)
    (hfinish : AllFinite finish.numbers) :
    range? (.object [("start", start.toJson), ("end", finish.toJson)]) = some (start, finish) := by
  refine Json.read_object (by simp) (List.Subset.refl _) ?_
  simp [TimeExpr.ofJson?_toJson start hstart, TimeExpr.ofJson?_toJson finish hfinish]

theorem ofJson?_toJson (nested : Bool) (e : TimelineEvent) (h : AllFinite e.numbers) :
    ofJson? nested e.toJson = some e := by
  cases e with
  | timed start finish action l =>
    rw [numbers, allFinite_append, allFinite_append] at h
    refine Json.read_node (by simp [kinds]) (by simp [tagName]) (fun _ => rfl) ?_
    simp [range?_object start finish h.1.1 h.1.2, TimelineAction.ofJson?_toJson action h.2]
  | sequence items l =>
    have hitems := Json.listOf?_map fun item hitem =>
      SequenceItem.ofJson?_toJson item (h.of_mem hitem)
    refine Json.read_node (by simp [kinds]) (by simp [tagName]) (fun _ => rfl) ?_
    simp [hitems]
  | stagger delay items action duration l =>
    simp only [numbers, allFinite_append] at h
    obtain ⟨hdelay, hitems, haction, hduration⟩ := h
    refine Json.read_node (by simp [kinds]) (by simp [tagName]) (fun _ => rfl) ?_
    simp [TimeExpr.ofJson?_toJson delay hdelay, Expr.ofJson?_toJson items hitems,
      TimelineAction.ofJson?_toJson action haction, TimeExpr.ofJson?_toJson duration hduration]

end TimelineEvent

theorem Provider.ofJson?_keyword (nested : Bool) (provider : Provider) :
    ofJson? nested (.string provider.keyword) = some provider := by
  cases provider <;> rfl

theorem Timeline.ofJson?_node (kind : String) (nested : Bool) (t : Timeline)
    (h : AllFinite t.numbers) : ofJson? nested (.node kind t.toFields) = some t := by
  have hevents := Json.listOf?_map fun e he => TimelineEvent.ofJson?_toJson nested e (h.of_mem he)
  refine Json.read_object (by simp [toFields, tagName]) (List.subset_cons_self _ t.toFields) ?_
  simp [toFields, Provider.ofJson?_keyword, hevents]

/-! ## Imports -/

theorem AssetKind.ofJson?_keyword (kind : AssetKind) :
    ofJson? (.string kind.keyword) = some kind := by
  cases kind <;> rfl

theorem AssetImport.ofJson?_node (kind : String) (i : AssetImport) :
    ofJson? (.node kind i.toFields) = some i := by
  refine Json.read_object (by simp [toFields, tagName]) (List.subset_cons_self _ i.toFields) ?_
  simp [toFields, AssetKind.ofJson?_keyword]

theorem ActionImport.ofJson?_toJson (i : ActionImport) : ofJson? i.toJson = some i := by
  refine Json.read_object (by simp) (List.Subset.refl _) ?_
  simp

namespace LibraryImport

theorem ofJson?_object (i : LibraryImport) {entries : List (String × Json)}
    (hnodup : (entries.map (·.1)).Nodup) (hsubset : i.toFields ⊆ entries) :
    ofJson? (.object entries) = some i := by
  have hactions := Json.listOf?_map fun (a : ActionImport) (_ : a ∈ i.actions) => a.ofJson?_toJson
  refine Json.read_object hnodup hsubset ?_
  simp [toFields, hactions]

theorem ofJson?_toJson (i : LibraryImport) : ofJson? i.toJson = some i :=
  ofJson?_object i (by simp [toFields]) (List.Subset.refl _)

theorem ofJson?_node (kind : String) (i : LibraryImport) :
    ofJson? (.node kind i.toFields) = some i :=
  ofJson?_object i (by simp [toFields, tagName]) (List.subset_cons_self _ _)

end LibraryImport

/-! ## Programs and libraries -/

/-- Every element is a node whose kind says what it is, and whose fields are those of the
declaration, action, import or timeline in it. -/
theorem Element.ofJson?_toJson (e : Element) (h : AllFinite e.numbers) :
    ofJson? e.toJson = some e := by
  cases e with
  | assetImport i =>
    refine Json.read_tagged (by simp [kinds]) (by simp [AssetImport.toFields, tagName]) ?_
    exact Option.bind_eq_some_iff.mpr ⟨i, i.ofJson?_node _, rfl⟩
  | libraryImport i =>
    refine Json.read_tagged (by simp [kinds]) (by simp [LibraryImport.toFields, tagName]) ?_
    exact Option.bind_eq_some_iff.mpr ⟨i, i.ofJson?_node _, rfl⟩
  | declaration d =>
    refine Json.read_tagged (by simp [kinds]) (by simp [Declaration.toFields, tagName]) ?_
    exact Option.bind_eq_some_iff.mpr ⟨d, d.ofJson?_node _ h, rfl⟩
  | action a =>
    refine Json.read_tagged (by simp [kinds]) (by simp [Action.toFields, tagName]) ?_
    exact Option.bind_eq_some_iff.mpr ⟨a, a.ofJson?_node _ true h, rfl⟩
  | eventAction a =>
    refine Json.read_tagged (by simp [kinds]) (by simp [EventAction.toFields, tagName]) ?_
    exact Option.bind_eq_some_iff.mpr ⟨a, a.ofJson?_node _ h, rfl⟩
  | timeline t =>
    refine Json.read_tagged (by simp [kinds]) (by simp [Timeline.toFields, tagName]) ?_
    exact Option.bind_eq_some_iff.mpr ⟨t, t.ofJson?_node _ true h, rfl⟩

theorem Program.ofJson?_toJson (p : Program) (h : AllFinite p.numbers) :
    ofJson? p.toJson = some p := by
  have helements := Json.listOf?_map fun e he => Element.ofJson?_toJson e (h.of_mem he)
  refine Json.read_object (by simp) (List.Subset.refl _) ?_
  simp [helements]

theorem Library.ofJson?_toJson (l : Library) (h : AllFinite l.numbers) :
    ofJson? l.toJson = some l := by
  have himports := Json.listOf?_map fun (i : LibraryImport) (_ : i ∈ l.imports) => i.ofJson?_toJson
  have hactions := Json.listOf?_map fun a ha => Action.ofJson?_toJson false a (h.of_mem ha)
  refine Json.read_object (by simp) (List.Subset.refl _) ?_
  simp [himports, hactions]

/-- **Programs and libraries are read back from what they are written as.** So a document that was
read, whatever it left out or spelt in another way, is read as the same tree once it has been
written back. A number has a written form only if it is finite, as all numbers of a document are. -/
theorem Program.reads_back :
    (∀ p : Program, AllFinite p.numbers → Program.ofJson? p.toJson = some p) ∧
    (∀ l : Library, AllFinite l.numbers → Library.ofJson? l.toJson = some l) ∧
    ∀ j : Json, AllFinite j.numbers →
      (∀ p, Program.ofJson? j = some p → Program.ofJson? p.toJson = some p) ∧
      (∀ l, Library.ofJson? j = some l → Library.ofJson? l.toJson = some l) := by
  refine ⟨Program.ofJson?_toJson, Library.ofJson?_toJson, ?_⟩
  intro j hj
  constructor
  · intro p hp
    exact p.ofJson?_toJson (hj.subset (Program.sourced_ofJson? j p hp))
  · intro l hl
    exact l.ofJson?_toJson (hj.subset (Library.sourced_ofJson? j l hl))

namespace Trailer

/-- A document that leaves most fields to their defaults and gives a location as a list. -/
def document : Json :=
  .object [("elements", .array [
    .object [("$type", .string "LibraryImport"), ("path", .string "fx")],
    .object [("$type", .string "VariableDeclaration"), ("name", .string "pause"),
      ("value", .object [("$type", .string "Binary"), ("op", .string "*"),
        ("left", .object [("$type", .string "Number"), ("value", .int 2),
          ("location", .array [.int 1, .int 9])]),
        ("right", .object [("$type", .string "VariableReference"), ("name", .string "beat")])])],
    .object [("$type", .string "ActionDefinition"), ("name", .string "show"),
      ("body", .object [("$type", .string "Endable"), ("startOperations", .array [
        .object [("$type", .string "If"), ("then", .array [.object [("$type", .string "Break")]]),
          ("else", .null), ("condition", .object [("$type", .string "Null")])]])])],
    .object [("$type", .string "Timeline"), ("name", .string "main"), ("provider", .string "raf"),
      ("containerSelector", .string "#app"), ("events", .array [
        .object [("$type", .string "Timed"), ("remark", .bool true),
          ("range", .object [
            ("start", .object [("$type", .string "Literal"), ("value", .float 0.5)]),
            ("end", .object [("$type", .string "Relative"), ("value", .int 1)])]),
          ("action", .object [("$type", .string "Named"),
            ("call", .object [("name", .string "show")])])]])]])]

def program : Program where
  elements := [
    .libraryImport ⟨"fx", [], .unknown⟩,
    .declaration {
      name := "pause"
      value := .binary .mul (.number 2 ⟨1, 9, 0⟩) (.variable "beat" .unknown) .unknown
      location := .unknown },
    .action {
      name := "show"
      parameters := []
      body := .endable [.branch (.null .unknown) [.breakLoop .unknown] none .unknown] []
      location := .unknown },
    .timeline {
      name := "main"
      containerSelector := "#app"
      provider := .raf
      source := none
      events := [.timed (.literal 0.5 .s .unknown) (.relative 1 .s .unknown)
        (.named ⟨"show", [], .unknown⟩) .unknown]
      location := .unknown }]
  location := .unknown

end Trailer

theorem Program.reads_back_trailer :
    AllFinite Trailer.document.numbers ∧ Program.ofJson? Trailer.document = some Trailer.program ∧
      Trailer.program.toJson ≠ Trailer.document ∧
      Program.ofJson? Trailer.program.toJson = some Trailer.program := by
  have hfinite : AllFinite Trailer.document.numbers := by decide
  have hread : Program.ofJson? Trailer.document = some Trailer.program := by rfl
  refine ⟨hfinite, hread, ?_,
    (Program.reads_back.2.2 Trailer.document hfinite).1 Trailer.program hread⟩
  intro h
  cases h

end Cuesheet
