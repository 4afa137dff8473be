import Cuesheet.Proofs.Constants
import Cuesheet.Proofs.Operators.Leaf
import Cuesheet.Proofs.Slots

/-!
# The operators of a condition

Lowering a condition forgets the expression and keeps a text. `Expr.operatorTree` is what the text
still says: the operators that are left to the engine, over leaves that are paths and JSON texts. A
constant subtree is one leaf, whatever operators it was computed from.

A condition is the text of its tree (`Expr.condition_eq`), and the tree is readable
(`Expr.readable_operatorTree`), so two conditions with one text have one tree. The names in
references must not hold what ends a leaf, and whole constants must have the size of a machine word:
the minus operator in front of a larger one may have no value, and then its text is that of a
negative constant.
-/

set_option autoImplicit false

namespace Cuesheet

open OperatorTree

/-! ## References -/

/-- A reference whose path can be read back: its names are plain, and a chain starts at a data
scope. -/
def Reference.Readable : Reference → Prop
  | parameter name _ | «variable» name _ | system name _ => Text.Plain name
  | chain root properties _ =>
    DataPath.chain root [] ∈ Runtime.scopes ∧ ∀ p ∈ properties, Text.Plain p

instance : DecidablePred Reference.Readable
  | .parameter name _ | .variable name _ | .system name _ =>
    inferInstanceAs (Decidable (Text.Plain name))
  | .chain root properties _ =>
    inferInstanceAs (Decidable
      (DataPath.chain root [] ∈ Runtime.scopes ∧ ∀ p ∈ properties, Text.Plain p))

namespace Scope

/-- Each kind of reference becomes one of a few paths, and all of them are readable if the name is
plain. The next two lemmas say this of variables and of the system. -/
theorem readable_of_lowerParameter {scope : Scope} {name : String} {l : Location} {value : Json}
    (hname : Text.Plain name) (h : scope.lowerParameter name l = .ok value) :
    ∃ path, value = .string path ∧ DataPath.Readable path := by
  rcases of_lowerParameter h with rfl | ⟨index, rfl⟩ | rfl
  · exact ⟨_, rfl, .of_loopItem⟩
  · exact ⟨_, rfl, .of_eventArgument index⟩
  · exact ⟨_, rfl, .of_parameter hname⟩

theorem readable_of_lowerVariable {scope : Scope} {name : String} {l : Location} {value : Json}
    (hname : Text.Plain name) (h : scope.lowerVariable name l = .ok value) :
    ∃ path, value = .string path ∧ DataPath.Readable path := by
  rcases of_lowerVariable h with rfl | rfl | rfl
  · exact ⟨_, rfl, .of_loopItem⟩
  · exact ⟨_, rfl, .of_localVariable hname⟩
  · exact ⟨_, rfl, .of_globalVariable hname⟩

theorem readable_lowerSystem {scope : Scope} (hscope : scope.staggerItem = none) {name : String}
    (hname : Text.Plain name) :
    ∃ path, scope.lowerSystem name = .string path ∧ DataPath.Readable path := by
  rcases lowerSystem_of_no_element (staggerElement?_of_no_stagger hscope name) with h | h
  · exact ⟨_, h, .of_loopItem⟩
  · exact ⟨_, h, .of_system hname⟩

end Scope

/-! ## The tree of an expression -/

/-- A value whose text can stand inside an operator, and stands there as it is. -/
structure Json.IsOperand (value : Json) : Prop where
  text_eq : operandText value = value.display
  isLeaf : IsLeaf value.display.toList
  startsOperand : startsOperand value.display.toList = true

/-- A path stands inside an operator without quotes. -/
theorem DataPath.Readable.isOperand {path : String} (h : Readable path) :
    (Json.string path).IsOperand where
  text_eq := by rw [operandText, if_pos h.isPath, Json.display]
  isLeaf := h.isLeaf
  startsOperand := h.startsOperand

/-- So do values that are not strings, in their compact form. -/
theorem Json.IsOperand.of_compact {value : Json} (hdisplay : value.display = value.compact)
    (htext : operandText value = value.compact)
    (hstart : OperatorTree.startsOperand value.compactChars = true) : value.IsOperand := by
  have hchars : value.display.toList = value.compactChars := by
    rw [hdisplay, Json.compact, String.toList_ofList]
  exact ⟨htext.trans hdisplay.symm, hchars ▸ isLeaf_compactChars value, hchars ▸ hstart⟩

namespace Expr

/-- Whether the expression is an operator with its operands. -/
def isOperator : Expr → Bool
  | .unary _ _ _ | .binary _ _ _ _ => true
  | _ => false

/-- The operators of an expression that are left to the engine. -/
def operatorTree (scope : Scope) (e : Expr) : Lowered OperatorTree :=
  match scope.fold? e with
  | some value => .ok (.leaf value.compact)
  | none =>
    match e with
    | .binary op left right _ => do
      let l ← operatorTree scope left
      let r ← operatorTree scope right
      return .binary op l r
    | .unary op inner _ => do
      let t ← operatorTree scope inner
      return .unary op t
    | e => (e.lower scope).map fun value => .leaf value.display

variable {scope : Scope}

/-- What is neither an operator nor a constant is lowered to a path, an array or an object, and each
of these is an operand. In a stagger this would fail, as `@@item` is replaced by an element that can
be any text. -/
theorem isOperand_of_lower (hscope : scope.staggerItem = none) {e : Expr} {value : Json}
    (hop : e.isOperator = false) (hrefs : ∀ r ∈ e.references, r.Readable)
    (hfold : scope.fold? e = none) (h : e.lower scope = .ok value) : value.IsOperand := by
  cases e with
  -- Arrays and objects are written as JSON, and they start with a bracket of their own.
  | array elements l =>
    rw [lower, hfold] at h
    obtain ⟨values, -, h⟩ := Except.bind_ok h
    cases h
    exact .of_compact rfl rfl rfl
  | object properties l =>
    rw [lower, hfold] at h
    obtain ⟨entries, -, h⟩ := Except.bind_ok h
    cases h
    exact .of_compact rfl rfl rfl
  | parameter name l =>
    rw [lower, hfold] at h
    obtain ⟨path, rfl, hpath⟩ := Scope.readable_of_lowerParameter (hrefs _ List.mem_cons_self) h
    exact hpath.isOperand
  | «variable» name l =>
    rw [lower, hfold] at h
    obtain ⟨path, rfl, hpath⟩ := Scope.readable_of_lowerVariable (hrefs _ List.mem_cons_self) h
    exact hpath.isOperand
  | system name l =>
    rw [lower, hfold] at h
    cases h
    obtain ⟨path, heq, hpath⟩ := Scope.readable_lowerSystem hscope (hrefs _ List.mem_cons_self)
    rw [heq]
    exact hpath.isOperand
  | chain root properties l =>
    rw [lower, hfold] at h
    cases h
    obtain ⟨hroot, hproperties⟩ := hrefs _ List.mem_cons_self
    exact (DataPath.Readable.of_chain hroot hproperties).isOperand
  | binary op left right l => cases hop
  | unary op inner l => cases hop
  -- A literal that does not fold is not lowered at all.
  | string s l | number x l | boolean b l | null l =>
    rw [lower, hfold] at h
    cases h

theorem operatorTree_of_fold? {e : Expr} {value : Json} (h : scope.fold? e = some value) :
    e.operatorTree scope = .ok (.leaf value.compact) := by
  unfold operatorTree
  rw [h]

/-- Apart from operators, an operand is lowered like a value and then written as a text. -/
theorem operand_of_leaf {e : Expr} (hop : e.isOperator = false) (hfold : scope.fold? e = none) :
    e.operand scope = (e.lower scope).map operandText := by
  cases e with
  | array elements l =>
    rw [operand, lower, hfold]
    cases lowerList scope elements <;> rfl
  | object properties l =>
    rw [operand, lower, hfold]
    cases lowerProperties scope properties <;> rfl
  | binary op left right l => cases hop
  | unary op inner l => cases hop
  | parameter name l | «variable» name l => rw [operand, lower, hfold]
  | system name l | chain root properties l | string s l | number x l | boolean b l | null l =>
    rw [operand, lower, hfold]
    rfl

theorem operatorTree_of_leaf {e : Expr} (hop : e.isOperator = false)
    (hfold : scope.fold? e = none) :
    e.operatorTree scope = (e.lower scope).map fun value => .leaf value.display := by
  cases e with
  | binary op left right l => cases hop
  | unary op inner l => cases hop
  | _ =>
    unfold operatorTree
    rw [hfold]

/-! ## The text of the tree -/

theorem infixText_ofList (op : BinaryOp) (l r : List Char) :
    infixText false op (String.ofList l) (String.ofList r) = String.ofList (pairChars op l r) := by
  apply String.toList_inj.mp
  simp [infixText, pairChars]

theorem infixText_nested_ofList (op : BinaryOp) (l r : List Char) :
    infixText true op (String.ofList l) (String.ofList r) =
      String.ofList ('(' :: (pairChars op l r ++ [')'])) := by
  apply String.toList_inj.mp
  simp [infixText, pairChars]

theorem operand_eq_of_fold? {e : Expr} {value : Json} (h : scope.fold? e = some value) :
    e.operand scope = (e.operatorTree scope).map fun t => String.ofList t.operandChars := by
  rw [operand_of_fold? h, operatorTree_of_fold? h, Except.map, operandChars, String.ofList_toList]

theorem operand_eq_of_leaf (hscope : scope.staggerItem = none) {e : Expr}
    (hop : e.isOperator = false) (hrefs : ∀ r ∈ e.references, r.Readable) :
    e.operand scope = (e.operatorTree scope).map fun t => String.ofList t.operandChars := by
  cases hfold : scope.fold? e with
  | some value => exact operand_eq_of_fold? hfold
  | none =>
    rw [operand_of_leaf hop hfold, operatorTree_of_leaf hop hfold]
    cases h : e.lower scope with
    | error err => rfl
    | ok value =>
      have htext := (isOperand_of_lower hscope hop hrefs hfold h).text_eq
      simp only [Except.map, operandChars, String.ofList_toList, htext]

/-- The text of an expression inside an operator is that of its tree. By induction over the
operators; where the expression folds, or is none, the tree is a leaf. -/
theorem operand_eq (hscope : scope.staggerItem = none) : ∀ (e : Expr),
    (∀ r ∈ e.references, r.Readable) →
    e.operand scope = (e.operatorTree scope).map fun t => String.ofList t.operandChars
  | .unary op inner l, hrefs => by
    cases hfold : scope.fold? (.unary op inner l) with
    | some value => exact operand_eq_of_fold? hfold
    | none =>
      -- Text and tree are made in the same order, so they fail at the same place.
      rw [operand, operatorTree, hfold, operand_eq hscope inner hrefs]
      cases inner.operatorTree scope with
      | error err => rfl
      | ok t =>
        show Except.ok (op.symbol ++ String.ofList t.operandChars) =
          .ok (String.ofList (op.symbol.toList ++ t.operandChars))
        rw [String.ofList_append, String.ofList_toList]
  | .binary op left right l, hrefs => by
    cases hfold : scope.fold? (.binary op left right l) with
    | some value => exact operand_eq_of_fold? hfold
    | none =>
      rw [operand, operatorTree, hfold,
        operand_eq hscope left fun r hr => hrefs r (List.mem_append_left _ hr),
        operand_eq hscope right fun r hr => hrefs r (List.mem_append_right _ hr)]
      cases left.operatorTree scope with
      | error err => rfl
      | ok l =>
        cases right.operatorTree scope with
        | error err => rfl
        | ok r => exact congrArg Except.ok (infixText_nested_ofList op _ _)
  | .array _ _, hrefs | .object _ _, hrefs | .parameter _ _, hrefs | .variable _ _, hrefs
  | .system _ _, hrefs | .chain _ _ _, hrefs | .string _ _, hrefs | .number _ _, hrefs
  | .boolean _ _, hrefs | .null _, hrefs => operand_eq_of_leaf hscope rfl hrefs

/-- A condition is the text of its tree. This is `operand_eq` without the outermost brackets, so it
is no induction of its own. -/
theorem condition_eq (hscope : scope.staggerItem = none) (e : Expr)
    (hrefs : ∀ r ∈ e.references, r.Readable) :
    e.condition scope = (e.operatorTree scope).map OperatorTree.text := by
  cases hfold : scope.fold? e with
  | some value =>
    unfold condition
    rw [hfold, operatorTree_of_fold? hfold]
    exact congrArg Except.ok String.ofList_toList.symm
  | none =>
    cases e with
    | binary op left right l =>
      rw [condition, operatorTree, hfold,
        operand_eq hscope left fun r hr => hrefs r (List.mem_append_left _ hr),
        operand_eq hscope right fun r hr => hrefs r (List.mem_append_right _ hr)]
      cases left.operatorTree scope with
      | error err => rfl
      | ok l =>
        cases right.operatorTree scope with
        | error err => rfl
        -- Without brackets this time.
        | ok r => exact congrArg Except.ok (infixText_ofList op _ _)
    | unary op inner l =>
      unfold condition
      rw [hfold]
      dsimp only
      rw [operand_eq hscope _ hrefs, operatorTree, hfold]
      cases inner.operatorTree scope <;> rfl
    | _ =>
      unfold condition
      rw [hfold]
      dsimp only
      rw [operand_eq hscope _ hrefs, operatorTree_of_leaf rfl hfold]
      cases lower scope _ <;> rfl

/-! ## Reading the text back -/

/-- A constant is a leaf, whatever it was computed from. It may start with a minus sign, but that
only matters for what does not fold. -/
theorem readable_of_fold? {e : Expr} {value : Json} {t : OperatorTree}
    (hfold : scope.fold? e = some value) (h : e.operatorTree scope = .ok t) :
    t.Readable ∧ (scope.fold? e = none → startsOperand t.operandChars = true) := by
  rw [operatorTree_of_fold? hfold] at h
  cases h
  refine ⟨.leaf ?_, fun hnone => ?_⟩
  · rw [Json.compact, String.toList_ofList]
    exact isLeaf_compactChars value
  · rw [hfold] at hnone
    cases hnone

theorem readable_of_leaf (hscope : scope.staggerItem = none) {e : Expr} {t : OperatorTree}
    (hop : e.isOperator = false) (hrefs : ∀ r ∈ e.references, r.Readable)
    (h : e.operatorTree scope = .ok t) :
    t.Readable ∧ (scope.fold? e = none → startsOperand t.operandChars = true) := by
  rcases Option.eq_none_or_eq_some (scope.fold? e) with hfold | ⟨value, hfold⟩
  · rw [operatorTree_of_leaf hop hfold] at h
    obtain ⟨value, hvalue, rfl⟩ := Except.map_ok h
    have hoperand := isOperand_of_lower hscope hop hrefs hfold hvalue
    exact ⟨.leaf hoperand.isLeaf, fun _ => hoperand.startsOperand⟩
  · exact readable_of_fold? hfold h

/-- The text under a minus operator that is left to the engine starts like an operand. Otherwise `-`
and `5` would be read as one number. -/
theorem startsOperand_under_neg (hsized : MachineSized scope.constant?) {inner : Expr}
    {l : Location}
    {t : OperatorTree} (hfold : scope.fold? (.unary .neg inner l) = none)
    (h : inner.operatorTree scope = .ok t)
    (hstart : scope.fold? inner = none → startsOperand t.operandChars = true) :
    startsOperand t.operandChars = true := by
  rcases Option.eq_none_or_eq_some (scope.fold? inner) with hinner | ⟨value, hinner⟩
  · exact hstart hinner
  · -- The operand is a constant but not a number, or the sign would have been folded into it.
    rw [operatorTree_of_fold? hinner] at h
    cases h
    have hneg : UnaryOp.neg.apply? value = none := by
      have hbind : (scope.fold? inner).bind UnaryOp.neg.apply? = none := hfold
      rwa [hinner] at hbind
    rw [operandChars, Json.compact, String.toList_ofList]
    refine startsOperand_of_neg_eq_none hneg ?_
    rintro n rfl
    exact natAbs_lt_of_fold? hsized inner hinner

/-- **The tree of an expression is readable.** What does not fold starts like an operand as well,
and the induction needs this for what stands under a minus sign. -/
theorem readable_operatorTree (hscope : scope.staggerItem = none)
    (hsized : MachineSized scope.constant?) :
    ∀ (e : Expr) {t : OperatorTree}, (∀ r ∈ e.references, r.Readable) →
    e.operatorTree scope = .ok t →
    t.Readable ∧ (scope.fold? e = none → startsOperand t.operandChars = true)
  | .unary op inner l, t, hrefs, h => by
    rcases Option.eq_none_or_eq_some (scope.fold? (.unary op inner l)) with hfold | ⟨value, hfold⟩
    · rw [operatorTree, hfold] at h
      obtain ⟨ti, hi, h⟩ := Except.bind_ok h
      cases h
      -- Under a minus sign it is not enough that the operand is readable.
      obtain ⟨hreadable, hstart⟩ := readable_operatorTree hscope hsized inner hrefs hi
      cases op with
      | not => exact ⟨.not hreadable, fun _ => rfl⟩
      | neg =>
        have hinner := startsOperand_under_neg hsized hfold hi hstart
        exact ⟨.neg hreadable hinner, fun _ => rfl⟩
    · exact readable_of_fold? hfold h
  | .binary op left right l, t, hrefs, h => by
    rcases Option.eq_none_or_eq_some (scope.fold? (.binary op left right l)) with
      hfold | ⟨value, hfold⟩
    · rw [operatorTree, hfold] at h
      obtain ⟨tl, hl, h⟩ := Except.bind_ok h
      obtain ⟨tr, hr, h⟩ := Except.bind_ok h
      cases h
      have hleft := readable_operatorTree hscope hsized left
        (fun r hr => hrefs r (List.mem_append_left _ hr)) hl
      have hright := readable_operatorTree hscope hsized right
        (fun r hr => hrefs r (List.mem_append_right _ hr)) hr
      exact ⟨.binary hleft.1 hright.1, fun _ => rfl⟩
    · exact readable_of_fold? hfold h
  | .array _ _, _, hrefs, h | .object _ _, _, hrefs, h | .parameter _ _, _, hrefs, h
  | .variable _ _, _, hrefs, h | .system _ _, _, hrefs, h | .chain _ _ _, _, hrefs, h
  | .string _ _, _, hrefs, h | .number _ _, _, hrefs, h | .boolean _ _, _, hrefs, h
  | .null _, _, hrefs, h => readable_of_leaf hscope rfl hrefs h

/-- The tree of a condition is read from its text. The reader knows nothing of the expression or the
scope. -/
theorem read_condition (hscope : scope.staggerItem = none)
    (hsized : MachineSized scope.constant?) {e : Expr}
    (hrefs : ∀ r ∈ e.references, r.Readable) {text : String} (h : e.condition scope = .ok text) :
    ∃ t, e.operatorTree scope = .ok t ∧ t.text = text ∧ OperatorTree.read text = some t := by
  rw [condition_eq hscope e hrefs] at h
  obtain ⟨t, ht, rfl⟩ := Except.map_ok h
  exact ⟨t, ht, rfl, read_text (readable_operatorTree hscope hsized e hrefs ht).1⟩

/-- Two conditions with one text have one tree. A reader recovers it from the text, and no other
readable tree has that text. -/
theorem condition_unambiguous (hscope : scope.staggerItem = none)
    (hsized : MachineSized scope.constant?) {e₁ e₂ : Expr}
    (h₁ : ∀ r ∈ e₁.references, r.Readable) (h₂ : ∀ r ∈ e₂.references, r.Readable) {text : String}
    (ht₁ : e₁.condition scope = .ok text) (ht₂ : e₂.condition scope = .ok text) :
    ∃ t, e₁.operatorTree scope = .ok t ∧ e₂.operatorTree scope = .ok t ∧ t.text = text ∧
      OperatorTree.read text = some t ∧
      ∀ other : OperatorTree, other.Readable → other.text = text → other = t := by
  obtain ⟨t₁, htree₁, htext, hread₁⟩ := read_condition hscope hsized h₁ ht₁
  obtain ⟨t₂, htree₂, -, hread₂⟩ := read_condition hscope hsized h₂ ht₂
  obtain rfl : t₁ = t₂ := Option.some.inj (hread₁.symm.trans hread₂)
  refine ⟨t₁, htree₁, htree₂, htext, hread₁, ?_⟩
  rintro other hother rfl
  exact Option.some.inj ((read_text hother).symm.trans hread₁)

end Expr

/-! ## A loop over rows

Both expressions compare `-5 - -row` with a title, but they name the constant and the row in
different ways. -/

namespace Rows

/-- Inside `for (row in rows)`, where the program has `const limit = -5`. -/
def scope : Scope :=
  (Scope.action ⟨.ofDeclarations [⟨"limit", .number (-5.0) .unknown, .unknown⟩], []⟩ ["rows"]
    .named).follow [.enterLoop "row"]

/-- `@limit - -row == title`, the title in one piece or in two. -/
def compare (limit row title : Expr) : Expr :=
  .binary .eq (.binary .sub limit (.unary .neg row .unknown) .unknown) title .unknown

def named : Expr :=
  compare (.variable "limit" .unknown) (.parameter "row" .unknown) (.string "a (b) c" .unknown)

def computed : Expr :=
  compare (.number (-5.0) .unknown) (.chain "scope" ["currentItem"] .unknown)
    (.binary .add (.string "a " .unknown) (.string "(b) c" .unknown) .unknown)

def text : String := "(-5 - -$scope.currentItem) == \"a (b) c\""

end Rows

theorem Expr.condition_unambiguous_rows :
    Rows.named.condition Rows.scope = .ok Rows.text ∧
    Rows.computed.condition Rows.scope = .ok Rows.text ∧
    ∃ t, Rows.named.operatorTree Rows.scope = .ok t ∧
      Rows.computed.operatorTree Rows.scope = .ok t ∧ t.text = Rows.text ∧
      OperatorTree.read Rows.text = some t ∧
      ∀ other : OperatorTree, other.Readable → other.text = Rows.text → other = t := by
  have hsized : MachineSized Rows.scope.constant? :=
    Scope.machineSized_follow (Constants.machineSized_ofDeclarations [])
      (Constants.machineSized_ofDeclarations _) _
  have hnamed : Rows.named.condition Rows.scope = .ok Rows.text := by rfl
  have hcomputed : Rows.computed.condition Rows.scope = .ok Rows.text := by rfl
  refine ⟨hnamed, hcomputed, Expr.condition_unambiguous rfl hsized ?_ ?_ hnamed hcomputed⟩
  · decide
  · decide

end Cuesheet
