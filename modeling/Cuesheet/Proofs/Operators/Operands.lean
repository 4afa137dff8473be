import Cuesheet.Proofs.Operators.Condition

/-!
# References inside operators

As a value, a reference is lowered to a path. The text of an operator has no place for the
difference between a path and a text that is meant literally, so a lowered operand is looked at: if
it starts with the name of a data scope it is written as it is, and otherwise in quotes. For a
reference this is a second opinion about something that is already known, and a chain can start
anywhere.

`OperandPlace` is an expression with one operand taken out, at any depth below operators. What such
an operand adds to the text of the whole is a part of it (`OperandPlace.text_fill`), and for a
reference this part is its path exactly if it is anchored in a data scope.
-/

set_option autoImplicit false

namespace Cuesheet

/-! ## Texts that are taken for paths -/

namespace Runtime

theorem startsWith_iff {part text : List Char} : startsWith part text = true ↔ part <+: text := by
  induction part generalizing text with
  | nil => simp [startsWith]
  | cons p part ih =>
    cases text with
    | nil => simp [startsWith]
    | cons c text => simp [startsWith, ih, List.cons_prefix_cons]

/-- A path is the name of a data scope, followed by a member, an index or nothing. -/
theorem isPath_iff {s : String} : isPath s = true ↔
    ∃ data ∈ scopes, ∃ rest, s.toList = data.toList ++ rest ∧ endsScope rest = true := by
  simp only [isPath, List.any_eq_true, Bool.and_eq_true, startsWith_iff]
  refine exists_congr fun data => and_congr_right fun _ => ?_
  constructor
  · rintro ⟨⟨rest, hrest⟩, hends⟩
    rw [← hrest, List.drop_left] at hends
    exact ⟨rest, hrest.symm, hends⟩
  · rintro ⟨rest, hrest, hends⟩
    rw [hrest, List.drop_left]
    exact ⟨List.prefix_append _ _, hends⟩

/-- What ends the name of a scope still does so with more text behind it. -/
theorem endsScope_append {first second : List Char} (h : endsScope first = true)
    (h' : endsScope second = true) : endsScope (first ++ second) = true := by
  cases first with
  | nil => exact h'
  | cons c first => exact h

theorem isPath_append (data tail rest : String)
    (h : data ∈ scopes ∧ endsScope tail.toList = true ∧ tail.toList ≠ []) :
    isPath (data ++ tail ++ rest) = true := by
  obtain ⟨hdata, hends, hne⟩ := h
  refine isPath_iff.mpr ⟨data, hdata, tail.toList ++ rest.toList, ?_, ?_⟩
  · simp only [String.toList_append, List.append_assoc]
  · cases htail : tail.toList with
    | nil => exact absurd htail hne
    | cons c tail =>
      rw [htail] at hends
      exact hends

end Runtime

namespace DataPath

open Cuesheet.Runtime

theorem isPath_loopItem : isPath loopItem = true :=
  isPath_append "$scope" ".current" "Item" (by decide)

theorem isPath_parameter (name : String) : isPath (parameter name) = true :=
  isPath_append "$operationdata" "." name (by decide)

theorem isPath_system (name : String) : isPath (system name) = true :=
  isPath_append "$scope" "." name (by decide)

theorem isPath_localVariable (name : String) : isPath (localVariable name) = true :=
  isPath_append "$scope" ".variables." name (by decide)

theorem isPath_globalVariable (name : String) : isPath (globalVariable name) = true :=
  isPath_append "$globaldata" "." name (by decide)

theorem isPath_eventArgument (index : Nat) : isPath (eventArgument index) = true := by
  unfold eventArgument
  simp only [String.append_assoc]
  exact isPath_append "$operationdata" ".eventArgs[" _ (by decide)

/-- The root of a chain, with one dollar sign in front, is a path by itself. -/
def Rooted (root : String) : Prop :=
  ∃ data ∈ scopes, ∃ rest, '$' :: root.toList.dropWhile (· == '$') = data.toList ++ rest ∧
    endsScope rest = true

/-- The members behind the root of a chain. -/
def members (properties : List String) : List Char :=
  (properties.map fun p => "." ++ p).flatMap String.toList

theorem toList_chain (root : String) (properties : List String) :
    (chain root properties).toList =
      ('$' :: root.toList.dropWhile (· == '$')) ++ members properties := by
  simp [chain, members, String.toList_append, String.toList_join]

theorem members_eq (properties : List String) :
    members properties = [] ∨ ∃ rest, members properties = '.' :: rest := by
  cases properties with
  | nil => exact .inl rfl
  | cons p rest => exact .inr ⟨_, by simp [members, String.toList_append]; rfl⟩

/-- Whether a chain is a path is decided by its root, whatever its members are. -/
theorem isPath_chain_iff (root : String) (properties : List String) :
    isPath (chain root properties) = true ↔ Rooted root := by
  rw [isPath_iff, Rooted, toList_chain]
  refine exists_congr fun data => and_congr_right fun hdata => ?_
  constructor
  · rintro ⟨rest, hsplit, hends⟩
    rcases List.append_eq_append_iff.mp hsplit with ⟨more, hdata', hmembers⟩ | ⟨more, hroot, hrest⟩
    · cases more with
      | nil => exact ⟨[], by simpa using hdata'.symm, rfl⟩
      | cons c more =>
        -- The name of the scope would reach into the members, but it has no point in it.
        have hpoint : '.' ∈ data.toList := by
          rcases members_eq properties with h | ⟨tail, h⟩
          · rw [h] at hmembers
            cases hmembers
          · rw [h] at hmembers
            cases hmembers
            rw [hdata']
            simp
        exact absurd hpoint ((by decide : ∀ data ∈ scopes, '.' ∉ data.toList) data hdata)
    · refine ⟨more, hroot, ?_⟩
      cases more with
      | nil => rfl
      | cons c more =>
        rw [hrest] at hends
        exact hends
  · rintro ⟨rest, hroot, hends⟩
    refine ⟨rest ++ members properties, by rw [hroot, List.append_assoc], endsScope_append hends ?_⟩
    rcases members_eq properties with h | ⟨tail, h⟩ <;> rw [h] <;> rfl

end DataPath

/-! ## The path of a reference -/

namespace Reference

/-- The reference starts at a data scope. Only a chain may start elsewhere. -/
def Anchored : Reference → Prop
  | chain root _ _ => DataPath.Rooted root
  | parameter _ _ | «variable» _ _ | system _ _ => True

/-- A reference that is lowered to a text is lowered to a path, unless it is not anchored. -/
theorem path_of_lower {scope : Scope} (hscope : scope.staggerItem = none) {r : Reference}
    (hruntime : scope.fold? r.expr = none) {value : Json} (h : r.expr.lower scope = .ok value) :
    ∃ path, value = .string path ∧ (Runtime.isPath path = true ↔ r.Anchored) := by
  cases r with
  | parameter name l =>
    rcases Scope.of_lowerParameter h with rfl | ⟨index, rfl⟩ | rfl
    · exact ⟨_, rfl, iff_of_true DataPath.isPath_loopItem trivial⟩
    · exact ⟨_, rfl, iff_of_true (DataPath.isPath_eventArgument index) trivial⟩
    · exact ⟨_, rfl, iff_of_true (DataPath.isPath_parameter name) trivial⟩
  | «variable» name l =>
    rw [expr] at hruntime h
    rw [Expr.lower, hruntime] at h
    rcases Scope.of_lowerVariable h with rfl | rfl | rfl
    · exact ⟨_, rfl, iff_of_true DataPath.isPath_loopItem trivial⟩
    · exact ⟨_, rfl, iff_of_true (DataPath.isPath_localVariable name) trivial⟩
    · exact ⟨_, rfl, iff_of_true (DataPath.isPath_globalVariable name) trivial⟩
  -- Outside of a stagger there is no element that could stand for the name.
  | system name l =>
    obtain rfl : scope.lowerSystem name = value := Except.ok.inj h
    have hnone := Scope.staggerElement?_of_no_stagger hscope name
    rcases Scope.lowerSystem_of_no_element hnone with heq | heq
    · exact ⟨_, heq, iff_of_true DataPath.isPath_loopItem trivial⟩
    · exact ⟨_, heq, iff_of_true (DataPath.isPath_system name) trivial⟩
  | chain root properties l =>
    obtain rfl : Json.string (DataPath.chain root properties) = value := Except.ok.inj h
    exact ⟨_, rfl, DataPath.isPath_chain_iff root properties⟩

end Reference

/-! ## Operands -/

namespace Expr

/-- The text of an expression, inside another operator or by itself. -/
def text (scope : Scope) (nested : Bool) (e : Expr) : Lowered String :=
  if nested then e.operand scope else e.condition scope

variable {scope : Scope} {op : BinaryOp} {sign : UnaryOp} {left right inner e : Expr} {l : Location}

theorem text_binary (nested : Bool) (h : scope.fold? (.binary op left right l) = none) :
    text scope nested (.binary op left right l) = (do
      let first ← left.text scope true
      let second ← right.text scope true
      return infixText nested op first second) := by
  cases nested with
  | true =>
    show operand scope (.binary op left right l) = _
    rw [operand, h]
    rfl
  | false =>
    show condition scope (.binary op left right l) = _
    rw [condition, h]
    rfl

theorem text_unary (nested : Bool) (h : scope.fold? (.unary sign inner l) = none) :
    text scope nested (.unary sign inner l) = (do
      let first ← inner.text scope true
      return sign.symbol ++ first) := by
  have hoperand : operand scope (.unary sign inner l) = (do
      let first ← inner.operand scope
      return sign.symbol ++ first) := by
    rw [operand, h]
  cases nested with
  | true => exact hoperand
  | false =>
    show condition scope (.unary sign inner l) = _
    unfold condition
    rw [h]
    exact hoperand

/-- What is not an operator has the same text everywhere. -/
theorem text_of_leaf (nested : Bool) (hleaf : e.isOperator = false) (h : scope.fold? e = none) :
    e.text scope nested = (e.lower scope).map operandText := by
  rw [← operand_of_leaf hleaf h]
  cases nested with
  | true => rfl
  | false =>
    show e.condition scope = _
    cases e with
    | binary _ _ _ _ => cases hleaf
    | _ =>
      unfold condition
      rw [h]

/-- As a value, an operator is its text as a condition. The outermost brackets are left out in
both. -/
theorem lower_of_operator (hop : e.isOperator = true) (h : scope.fold? e = none) :
    e.lower scope = (e.condition scope).map .string := by
  cases e with
  | binary op left right l =>
    have htext : condition scope (.binary op left right l) = _ := text_binary false h
    rw [htext, lower, h]
    show (left.operand scope >>= _) = (left.operand scope >>= _).map Json.string
    cases left.operand scope with
    | error err => rfl
    | ok first =>
      show (right.operand scope >>= _) = (right.operand scope >>= _).map Json.string
      cases right.operand scope <;> rfl
  | unary op inner l =>
    have htext : condition scope (.unary op inner l) = _ := text_unary false h
    rw [htext, lower, h]
    show (inner.operand scope >>= _) = (inner.operand scope >>= _).map Json.string
    cases inner.operand scope <;> rfl
  | _ => cases hop

end Expr

/-- An expression with one operand taken out, at any depth below operators. -/
inductive OperandPlace where
  | whole
  | left (op : BinaryOp) (inner : OperandPlace) (right : Expr) (location : Location)
  | right (op : BinaryOp) (left : Expr) (inner : OperandPlace) (location : Location)
  | under (op : UnaryOp) (inner : OperandPlace) (location : Location)

namespace OperandPlace

/-- The expression that has the given operand at the place. -/
def fill (e : Expr) : OperandPlace → Expr
  | whole => e
  | left op inner other l => .binary op (inner.fill e) other l
  | right op other inner l => .binary op other (inner.fill e) l
  | under op inner l => .unary op (inner.fill e) l

/-- The bracket in front of an operator that stands inside another one. -/
def opening (nested : Bool) : String := if nested then "(" else ""

def closing (nested : Bool) : String := if nested then ")" else ""

/-- What stands between two operands. -/
def between (op : BinaryOp) : String := " " ++ op.symbol ++ " "

/-- The text in front of the operand. -/
def front (scope : Scope) : (nested : Bool) → OperandPlace → Lowered String
  | _, whole => .ok ""
  | nested, left _ inner _ _ => do
    let first ← inner.front scope true
    return opening nested ++ first
  | nested, right op other inner _ => do
    let text ← other.text scope true
    let first ← inner.front scope true
    return opening nested ++ (text ++ (between op ++ first))
  | _, under op inner _ => do
    let first ← inner.front scope true
    return op.symbol ++ first

/-- The text behind the operand. -/
def back (scope : Scope) : (nested : Bool) → OperandPlace → Lowered String
  | _, whole => .ok ""
  | nested, left op inner other _ => do
    let last ← inner.back scope true
    let text ← other.text scope true
    return last ++ (between op ++ (text ++ closing nested))
  | nested, right _ _ inner _ => do
    let last ← inner.back scope true
    return last ++ closing nested
  | _, under _ inner _ => inner.back scope true

theorem infixText_eq (nested : Bool) (op : BinaryOp) (l r : String) :
    Expr.infixText nested op l r =
      opening nested ++ (l ++ (between op ++ (r ++ closing nested))) := by
  apply String.toList_inj.mp
  cases nested <;> simp [Expr.infixText, opening, closing, between]

variable {scope : Scope} {e : Expr}

/-- What does not fold keeps everything around it from folding. This holds of the logical operators
as well, which never skip an operand. -/
theorem fold?_fill (h : scope.fold? e = none) : ∀ place : OperandPlace,
    scope.fold? (place.fill e) = none
  | whole => h
  | left op inner other l => by
    have hinner : (inner.fill e).fold? scope.constant? = none := fold?_fill h inner
    show ((inner.fill e).fold? scope.constant? >>= _) = none
    rw [hinner]
    rfl
  | right op other inner l => by
    have hinner : (inner.fill e).fold? scope.constant? = none := fold?_fill h inner
    show (other.fold? scope.constant? >>= _) = none
    cases other.fold? scope.constant? with
    | none => rfl
    | some value =>
      show ((inner.fill e).fold? scope.constant? >>= _) = none
      rw [hinner]
      rfl
  | under op inner l => by
    have hinner : (inner.fill e).fold? scope.constant? = none := fold?_fill h inner
    show ((inner.fill e).fold? scope.constant? >>= _) = none
    rw [hinner]
    rfl

/-- The text of the whole is that of the operand, with something in front of it and something behind
it that do not depend on the operand. -/
theorem text_fill (h : scope.fold? e = none) (hleaf : e.isOperator = false) :
    ∀ (place : OperandPlace) (nested : Bool), (place.fill e).text scope nested = (do
      let first ← place.front scope nested
      let text ← e.text scope true
      let last ← place.back scope nested
      return first ++ (text ++ last))
  | whole, nested => by
    simp only [fill, front, back, Except.ok_bind, String.empty_append, String.append_empty,
      Expr.text_of_leaf _ hleaf h]
    exact (bind_pure _).symm
  -- The operand does not fold, so nothing around it does, and the operator is written out.
  | left op inner other l, nested => by
    have hfold := fold?_fill h (left op inner other l)
    rw [fill] at hfold ⊢
    rw [Expr.text_binary nested hfold, text_fill h hleaf inner]
    simp only [front, back, infixText_eq, bind_assoc, pure_bind, String.append_assoc]
  | right op other inner l, nested => by
    have hfold := fold?_fill h (right op other inner l)
    rw [fill] at hfold ⊢
    rw [Expr.text_binary nested hfold, text_fill h hleaf inner]
    simp only [front, back, infixText_eq, bind_assoc, pure_bind, String.append_assoc]
  | under op inner l, nested => by
    have hfold := fold?_fill h (under op inner l)
    rw [fill] at hfold ⊢
    rw [Expr.text_unary nested hfold, text_fill h hleaf inner]
    simp only [front, back, bind_assoc, pure_bind, String.append_assoc]

theorem isOperator_fill {place : OperandPlace} (h : place ≠ whole) :
    (place.fill e).isOperator = true := by
  cases place with
  | whole => exact absurd rfl h
  | left _ _ _ _ | right _ _ _ _ | under _ _ _ => rfl

end OperandPlace

/-! ## References as operands -/

theorem DataPath.compact_ne_chain (root : String) (properties : List String) :
    (Json.string (chain root properties)).compact ≠ chain root properties := by
  intro heq
  have hquote : (Json.string (chain root properties)).compact.toList.head? = some '"' := by
    rw [Json.compact, String.toList_ofList]
    rfl
  rw [heq, toList_chain] at hquote
  cases hquote

theorem Reference.isOperator_expr (r : Reference) : r.expr.isOperator = false := by
  cases r <;> rfl

/-- **Inside operators, a reference stands for its path exactly if it starts at a data scope.** As a
value it is always lowered to its path. Whatever operators stand around it, and also if there are
none, what it adds to the text is one and the same: the path, if the reference is anchored. All bare
names, variables and system properties are, and so is a chain whose root is a data scope or goes on
behind one. Any other chain becomes a text in quotes. -/
theorem Reference.text_in_operators {scope : Scope} (hscope : scope.staggerItem = none)
    {r : Reference} (hruntime : scope.fold? r.expr = none) {value : Json}
    (h : r.expr.lower scope = .ok value) :
    ∃ path text, value = .string path ∧ r.expr.condition scope = .ok text ∧
      (∀ place : OperandPlace, place ≠ .whole →
        (place.fill r.expr).condition scope = (do
          let first ← place.front scope false
          let last ← place.back scope false
          return first ++ (text ++ last)) ∧
        (place.fill r.expr).lower scope = ((place.fill r.expr).condition scope).map .string) ∧
      (r.Anchored → text = path) ∧
      (¬ r.Anchored → text = (Json.string path).compact ∧ text ≠ path) := by
  obtain ⟨path, rfl, hpath⟩ := path_of_lower hscope hruntime h
  have htext : ∀ nested, r.expr.text scope nested = .ok (operandText (.string path)) := by
    intro nested
    rw [Expr.text_of_leaf nested r.isOperator_expr hruntime, h]
    rfl
  refine ⟨path, operandText (.string path), rfl, htext false, ?_, ?_, ?_⟩
  · intro place hplace
    have hfill := OperandPlace.text_fill hruntime r.isOperator_expr place false
    rw [htext true] at hfill
    exact ⟨hfill, Expr.lower_of_operator (OperandPlace.isOperator_fill hplace)
      (OperandPlace.fold?_fill hruntime place)⟩
  · intro hanchored
    exact if_pos (hpath.mpr hanchored)
  · intro hanchored
    have hquoted : operandText (.string path) = (Json.string path).compact :=
      if_neg fun hp => hanchored (hpath.mp hp)
    rw [hquoted]
    refine ⟨rfl, ?_⟩
    -- Only a chain is not anchored, and its path starts with a dollar sign.
    cases r with
    | chain root properties l =>
      obtain rfl : DataPath.chain root properties = path := Json.string.inj (Except.ok.inj h)
      exact DataPath.compact_ne_chain root properties
    | parameter _ _ | «variable» _ _ | system _ _ => exact absurd trivial hanchored

namespace Dimmer

def scope : Scope := .top default

/-- `$scope[0].level`. -/
def anchored : Reference := .chain "scope[0]" ["level"] .unknown

/-- `$stage.level`. -/
def loose : Reference := .chain "stage" ["level"] .unknown

/-- `!(… > 2)`. -/
def place : OperandPlace := .under .not (.left .gt .whole (.number 2 .unknown) .unknown) .unknown

theorem rooted_scope : DataPath.Rooted "scope[0]" :=
  ⟨"$scope", by decide, "[0]".toList, by decide, rfl⟩

end Dimmer

theorem Reference.text_in_operators_dimmer :
    Dimmer.scope.staggerItem = none ∧ Dimmer.scope.fold? Dimmer.anchored.expr = none ∧
      Dimmer.anchored.expr.lower Dimmer.scope = .ok (.string "$scope[0].level") ∧
      (Dimmer.place.fill Dimmer.anchored.expr).condition Dimmer.scope =
        .ok "!($scope[0].level > 2)" := by
  have hlower : Dimmer.anchored.expr.lower Dimmer.scope = .ok (.string "$scope[0].level") := by rfl
  refine ⟨rfl, rfl, hlower, ?_⟩
  obtain ⟨path, text, hpath, -, hplaces, hanchored, -⟩ :=
    Reference.text_in_operators rfl rfl hlower
  obtain rfl := hanchored Dimmer.rooted_scope
  cases hpath
  exact (hplaces Dimmer.place nofun).1

/-- A chain that starts elsewhere is a path as a value, but a text in quotes as a condition. -/
theorem Reference.path_in_quotes :
    Dimmer.loose.expr.lower Dimmer.scope = .ok (.string "$stage.level") ∧
      (Dimmer.place.fill Dimmer.loose.expr).condition Dimmer.scope =
        .ok "!(\"$stage.level\" > 2)" ∧
      ¬ ∀ (scope : Scope) (r : Reference) (path : String), scope.staggerItem = none →
        scope.fold? r.expr = none → r.expr.lower scope = .ok (.string path) →
        r.expr.condition scope = .ok path := by
  refine ⟨rfl, rfl, ?_⟩
  intro h
  have hquoted : Dimmer.loose.expr.condition Dimmer.scope = .ok "\"$stage.level\"" := rfl
  rw [h Dimmer.scope Dimmer.loose "$stage.level" rfl rfl rfl] at hquoted
  exact absurd (Except.ok.inj hquoted) (by decide)

end Cuesheet
