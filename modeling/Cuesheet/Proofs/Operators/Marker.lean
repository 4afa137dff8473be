import Cuesheet.Proofs.Binding
import Cuesheet.Proofs.Operators.Operands

/-!
# Operators over run-time values

The type of an argument is checked when a program is lowered, but what the engine computes has no
type yet. Such an argument is let through, and it is recognised by its text: it has the name of a
data scope somewhere in it. So a reference that only the engine can resolve has to leave that name
in the text, however deep it stands below operators, arrays and objects.

Three things have to hold for that. An expression with such a reference never folds, so the
reference is lowered (`Expr.fold?_of_atRuntime`). The reference itself is lowered to a path, which
starts with the name of a scope. And everything around it keeps the name in one piece: brackets and
operators stand beside it, and the escapes of JSON text leave its characters as they are
(`Runtime.Named.quoted`). Only an object can lose a reference, if a later member has the same name.
-/

set_option autoImplicit false

namespace Cuesheet

/-! ## Texts with the name of a scope in them -/

namespace Runtime

/-- The name of a data scope stands somewhere in the text. -/
def Named (text : List Char) : Prop := ∃ data ∈ scopes, data.toList <:+: text

theorem occursIn_iff {part text : List Char} : occursIn part text = true ↔ part <:+: text := by
  induction text with
  | nil => simp [occursIn]
  | cons c text ih => simp [occursIn, startsWith_iff, ih, List.infix_cons_iff]

/-- The check goes through the text and tries each name at each place. For proofs only the answer
matters: one of the names is a part of the text. -/
theorem mentionsScope_iff {s : String} : mentionsScope s = true ↔ Named s.toList := by
  simp [mentionsScope, Named, occursIn_iff]

namespace Named

variable {text whole : List Char}

theorem not_nil : ¬ Named [] := by
  intro h
  obtain ⟨data, hdata, hname⟩ := h
  have hempty : data.toList = [] := List.eq_nil_of_infix_nil hname
  exact (by decide : ∀ data ∈ scopes, data.toList ≠ []) data hdata hempty

/-- A text around it keeps the name. Most of what follows only says where the one text stands in the
other. -/
theorem mono (hpart : text <:+: whole) (h : Named text) : Named whole := by
  obtain ⟨data, hdata, hname⟩ := h
  exact ⟨data, hdata, hname.trans hpart⟩

theorem append_left (h : Named text) (front : List Char) : Named (front ++ text) :=
  h.mono (List.suffix_append front text).isInfix

theorem append_right (h : Named text) (rest : List Char) : Named (text ++ rest) :=
  h.mono (List.prefix_append text rest).isInfix

theorem between {s : String} (h : Named s.toList) (front rest : String) :
    Named (front ++ s ++ rest).toList := by
  rw [String.toList_append, String.toList_append]
  exact (h.append_left _).append_right _

theorem cons (h : Named text) (c : Char) : Named (c :: text) := h.append_left [c]

/-- The name of a scope has no character in it that is escaped. -/
theorem escapeChar_scope {data : String} (h : data ∈ scopes) :
    data.toList.flatMap Json.escapeChar = data.toList :=
  (by decide : ∀ data ∈ scopes, data.toList.flatMap Json.escapeChar = data.toList) data h

/-- A string literal still has the name in it. Characters are escaped one by one, and those of the
name stay as they are and stay together. -/
theorem quoted {s : String} (h : Named s.toList) : Named (Json.quoted s) := by
  obtain ⟨data, hdata, front, rest, hsplit⟩ := h
  -- Escaping goes character by character, so it can be done in front of the name, in it and behind
  -- it.
  have hescaped : Named (s.toList.flatMap Json.escapeChar) := by
    refine ⟨data, hdata, front.flatMap Json.escapeChar, rest.flatMap Json.escapeChar, ?_⟩
    rw [← hsplit, List.flatMap_append, List.flatMap_append, escapeChar_scope hdata]
  exact (hescaped.append_right ['"']).cons '"'

theorem of_isPath {s : String} (h : isPath s = true) : Named s.toList := by
  obtain ⟨data, hdata, rest, hsplit, -⟩ := isPath_iff.mp h
  rw [hsplit]
  exact ⟨data, hdata, (List.prefix_append _ rest).isInfix⟩

/-- The text of a value as JSON has the name in it if the value by itself has. -/
theorem compactChars {value : Json} (h : Named value.display.toList) :
    Named value.compactChars := by
  cases value with
  | string s => exact quoted h
  | null | bool b | int n | float x | array items | object entries =>
    simpa [Json.display, Json.compact] using h

/-- The brackets of an array stand beside its items, and likewise below for an object. -/
theorem array {items : List Json} (h : Named (Json.compactItems items)) :
    Named (Json.array items).display.toList := by
  have htext : (Json.array items).display.toList = '[' :: (Json.compactItems items ++ [']']) :=
    String.toList_ofList
  rw [htext]
  exact (h.append_right _).cons _

theorem object {entries : List (String × Json)} (h : Named (Json.compactEntries entries)) :
    Named (Json.object entries).display.toList := by
  have htext : (Json.object entries).display.toList =
      '\x7b' :: (Json.compactEntries entries ++ ['\x7d']) := String.toList_ofList
  rw [htext]
  exact (h.append_right _).cons _

theorem item {value : Json} (h : Named value.display.toList) (rest : List Json) :
    Named (Json.compactItems (value :: rest)) := by
  cases rest with
  | nil => exact h.compactChars
  | cons next rest => exact h.compactChars.append_right _

/-- The separator stands between the items, so the text of the rest is a part of the whole one. -/
theorem later_items {rest : List Json} (h : Named (Json.compactItems rest)) (value : Json) :
    Named (Json.compactItems (value :: rest)) := by
  cases rest with
  | nil => exact absurd h not_nil
  | cons next rest => exact (h.cons _).append_left _

theorem member {value : Json} (h : Named value.display.toList) (key : String)
    (rest : List (String × Json)) : Named (Json.compactEntries ((key, value) :: rest)) := by
  cases rest with
  | nil => exact (h.compactChars.cons _).append_left _
  | cons next rest => exact ((h.compactChars.append_right _).cons _).append_left _

theorem later_members {rest : List (String × Json)} (h : Named (Json.compactEntries rest))
    (key : String) (value : Json) : Named (Json.compactEntries ((key, value) :: rest)) := by
  cases rest with
  | nil => exact absurd h not_nil
  | cons next rest => exact (((h.cons _).append_left _).cons _).append_left _

/-- A path is written without quotes and any other text with them. Both have the name. -/
theorem operandText {value : Json} (h : Named value.display.toList) :
    Named (Cuesheet.operandText value).toList := by
  cases value with
  | string s =>
    rw [Cuesheet.operandText]
    split
    · exact h
    · rw [Json.compact, String.toList_ofList]
      exact quoted h
  | null | bool b | int n | float x | array items | object entries => exact h

end Named

end Runtime

/-! ## Expressions with a reference that is left to the engine -/

namespace Reference

/-- Only the engine can say what the reference stands for, and it finds that in one of its data
scopes. A variable may be constant, and a chain may start elsewhere. -/
def AtRuntime (scope : Scope) : Reference → Prop
  | parameter _ _ | system _ _ => True
  | «variable» name _ => scope.constant? name = none
  | chain root _ _ => DataPath.Rooted root

theorem AtRuntime.fold?_eq_none {scope : Scope} {r : Reference} (h : r.AtRuntime scope) :
    scope.fold? r.expr = none := by
  cases r with
  | «variable» name l => exact h
  | parameter name l | system name l | chain root properties l => rfl

theorem AtRuntime.anchored {scope : Scope} {r : Reference} (h : r.AtRuntime scope) :
    r.Anchored := by
  cases r with
  | chain root properties l => exact h
  | parameter name l | «variable» name l | system name l => trivial

/-- The reference is lowered to a text with the name of a scope in it. -/
theorem AtRuntime.named {scope : Scope} (hscope : scope.staggerItem = none) {r : Reference}
    (h : r.AtRuntime scope) {value : Json} (hvalue : r.expr.lower scope = .ok value) :
    Runtime.Named value.display.toList := by
  obtain ⟨path, rfl, hpath⟩ := path_of_lower hscope h.fold?_eq_none hvalue
  exact .of_isPath (hpath.mpr h.anchored)

end Reference

namespace Expr

mutual

/-- The names of the members of every object in an expression, object by object. -/
def objectKeys : Expr → List (List String)
  | .array elements _ => objectKeysIn elements
  | .object properties _ => properties.map (·.1) :: objectKeysInProperties properties
  | .unary _ operand _ => objectKeys operand
  | .binary _ left right _ => objectKeys left ++ objectKeys right
  | .parameter _ _ | .variable _ _ | .system _ _ | .chain _ _ _
  | .string _ _ | .number _ _ | .boolean _ _ | .null _ => []

def objectKeysIn : List Expr → List (List String)
  | [] => []
  | e :: rest => objectKeys e ++ objectKeysIn rest

def objectKeysInProperties : List (String × Expr) → List (List String)
  | [] => []
  | (_, e) :: rest => objectKeys e ++ objectKeysInProperties rest

end

variable {scope : Scope}

/-- An expression with such a reference does not fold, so its parts are lowered. By the
contrapositive: what folds has only references that fold. -/
theorem fold?_of_atRuntime {e : Expr} {r : Reference} (hr : r ∈ references e)
    (h : r.AtRuntime scope) : scope.fold? e = none := by
  cases hfold : scope.fold? e with
  | none => rfl
  | some value =>
    obtain ⟨found, hfound⟩ := folds_of_fold? e hfold r hr
    rw [h.fold?_eq_none] at hfound
    cases hfound

theorem named_infixText_left {l : String} (h : Runtime.Named l.toList) (nested : Bool)
    (op : BinaryOp) (r : String) : Runtime.Named (infixText nested op l r).toList := by
  rw [OperandPlace.infixText_eq]
  simp only [String.toList_append]
  exact (h.append_right _).append_left _

theorem named_infixText_right {r : String} (h : Runtime.Named r.toList) (nested : Bool)
    (op : BinaryOp) (l : String) : Runtime.Named (infixText nested op l r).toList := by
  rw [OperandPlace.infixText_eq]
  simp only [String.toList_append]
  exact (((h.append_right _).append_left _).append_left _).append_left _

/-- Inside another operator, an expression has all of the text that it is lowered to by itself. An
operator gets brackets around it, and anything else may lose its quotes. -/
theorem named_operand {e : Expr} (hfold : scope.fold? e = none) {text : String}
    (h : e.operand scope = .ok text) : ∃ value, e.lower scope = .ok value ∧
      (Runtime.Named value.display.toList → Runtime.Named text.toList) := by
  cases e with
  | binary op left right l =>
    rw [operand, hfold] at h
    obtain ⟨first, hfirst, h⟩ := Except.bind_ok h
    obtain ⟨second, hsecond, h⟩ := Except.bind_ok h
    cases h
    refine ⟨.string (infixText false op first second), ?_, ?_⟩
    · rw [lower, hfold, hfirst, Except.ok_bind, hsecond]
      rfl
    · exact fun hnamed => hnamed.between "(" ")"
  | unary op inner l =>
    rw [operand, hfold] at h
    obtain ⟨first, hfirst, h⟩ := Except.bind_ok h
    cases h
    refine ⟨.string (op.symbol ++ first), ?_, id⟩
    rw [lower, hfold, hfirst]
    rfl
  -- What is no operator is written out, and it may lose its quotes.
  | _ =>
    rw [operand_of_leaf rfl hfold] at h
    obtain ⟨value, hvalue, rfl⟩ := Except.map_ok h
    exact ⟨value, hvalue, Runtime.Named.operandText⟩

theorem keys_of_lowerProperties : ∀ {properties : List (String × Expr)}
    {entries : List (String × Json)}, lowerProperties scope properties = .ok entries →
    Dict.keys entries = properties.map (·.1)
  | [], _, h => by
    cases h
    rfl
  | (key, e) :: rest, _, h => by
    obtain ⟨value, -, h⟩ := Except.bind_ok h
    obtain ⟨values, hvalues, h⟩ := Except.bind_ok h
    cases h
    exact congrArg (key :: ·) (keys_of_lowerProperties hvalues)

mutual

/-- **What an expression is lowered to has the name of a scope in it** if the expression has a
reference that is left to the engine. By induction on the expression: the reference stands in one of
the parts, whose text is a part of the whole one. -/
theorem named_of_lower (hscope : scope.staggerItem = none) : ∀ (e : Expr) {value : Json},
    e.lower scope = .ok value → (∀ keys ∈ e.objectKeys, keys.Nodup) →
    ∀ r ∈ references e, r.AtRuntime scope → Runtime.Named value.display.toList
  | .string _ _, _, _, _, _, hr, _ | .number _ _, _, _, _, _, hr, _
  | .boolean _ _, _, _, _, _, hr, _ | .null _, _, _, _, _, hr, _ => absurd hr List.not_mem_nil
  | .parameter name l, _, h, _, r, hr, hruntime | .variable name l, _, h, _, r, hr, hruntime
  | .system name l, _, h, _, r, hr, hruntime
  | .chain root properties l, _, h, _, r, hr, hruntime => by
    rw [references, List.mem_singleton] at hr
    subst hr
    exact hruntime.named hscope h
  | .array elements l, _, h, hkeys, r, hr, hruntime => by
    rw [lower, fold?_of_atRuntime hr hruntime] at h
    obtain ⟨values, hvalues, h⟩ := Except.bind_ok h
    cases h
    exact .array (named_of_lowerList hscope elements hvalues hkeys r hr hruntime)
  | .object properties l, _, h, hkeys, r, hr, hruntime => by
    rw [lower, fold?_of_atRuntime hr hruntime] at h
    obtain ⟨entries, hentries, h⟩ := Except.bind_ok h
    cases h
    obtain ⟨hnodup, hkeys⟩ := List.forall_mem_cons.mp hkeys
    -- No member takes the place of another one.
    rw [← keys_of_lowerProperties hentries] at hnodup
    rw [Dict.ofList_of_nodup hnodup]
    exact .object (named_of_lowerProperties hscope properties hentries hkeys r hr hruntime)
  | .unary op inner l, _, h, hkeys, r, hr, hruntime => by
    rw [lower, fold?_of_atRuntime hr hruntime] at h
    obtain ⟨text, htext, h⟩ := Except.bind_ok h
    cases h
    obtain ⟨value, hvalue, hnamed⟩ :=
      named_operand (e := inner) (fold?_of_atRuntime hr hruntime) htext
    have htext := hnamed (named_of_lower hscope inner hvalue hkeys r hr hruntime)
    show Runtime.Named (op.symbol ++ text).toList
    rw [String.toList_append]
    exact htext.append_left _
  | .binary op left right l, _, h, hkeys, r, hr, hruntime => by
    rw [lower, fold?_of_atRuntime hr hruntime] at h
    obtain ⟨first, hfirst, h⟩ := Except.bind_ok h
    obtain ⟨second, hsecond, h⟩ := Except.bind_ok h
    cases h
    obtain ⟨hleft, hright⟩ := List.forall_mem_append.mp hkeys
    rcases List.mem_append.mp hr with hr | hr
    · obtain ⟨value, hvalue, hnamed⟩ := named_operand (fold?_of_atRuntime hr hruntime) hfirst
      have htext := hnamed (named_of_lower hscope left hvalue hleft r hr hruntime)
      exact named_infixText_left htext false op second
    · obtain ⟨value, hvalue, hnamed⟩ := named_operand (fold?_of_atRuntime hr hruntime) hsecond
      have htext := hnamed (named_of_lower hscope right hvalue hright r hr hruntime)
      exact named_infixText_right htext false op first

theorem named_of_lowerList (hscope : scope.staggerItem = none) :
    ∀ (elements : List Expr) {values : List Json}, lowerList scope elements = .ok values →
    (∀ keys ∈ objectKeysIn elements, keys.Nodup) →
    ∀ r ∈ referencesIn elements, r.AtRuntime scope → Runtime.Named (Json.compactItems values)
  | e :: rest, _, h, hkeys, r, hr, hruntime => by
    obtain ⟨value, hvalue, h⟩ := Except.bind_ok h
    obtain ⟨values, hvalues, h⟩ := Except.bind_ok h
    cases h
    obtain ⟨hfirst, hrest⟩ := List.forall_mem_append.mp hkeys
    rcases List.mem_append.mp hr with hr | hr
    · exact .item (named_of_lower hscope e hvalue hfirst r hr hruntime) values
    · exact .later_items (named_of_lowerList hscope rest hvalues hrest r hr hruntime) value

theorem named_of_lowerProperties (hscope : scope.staggerItem = none) :
    ∀ (properties : List (String × Expr)) {entries : List (String × Json)},
    lowerProperties scope properties = .ok entries →
    (∀ keys ∈ objectKeysInProperties properties, keys.Nodup) →
    ∀ r ∈ referencesInProperties properties, r.AtRuntime scope →
    Runtime.Named (Json.compactEntries entries)
  | (key, e) :: rest, _, h, hkeys, r, hr, hruntime => by
    obtain ⟨value, hvalue, h⟩ := Except.bind_ok h
    obtain ⟨values, hvalues, h⟩ := Except.bind_ok h
    cases h
    obtain ⟨hfirst, hrest⟩ := List.forall_mem_append.mp hkeys
    rcases List.mem_append.mp hr with hr | hr
    · exact .member (named_of_lower hscope e hvalue hfirst r hr hruntime) key values
    · exact .later_members (named_of_lowerProperties hscope rest hvalues hrest r hr hruntime) key
        value

end

theorem lower_operator_eq_string {e : Expr} (hop : e.isOperator = true)
    (hfold : scope.fold? e = none) {value : Json} (h : e.lower scope = .ok value) :
    ∃ text, value = .string text := by
  rw [lower_of_operator hop hfold] at h
  obtain ⟨text, -, rfl⟩ := Except.map_ok h
  exact ⟨text, rfl⟩

/-- **What the engine computes is never taken for a literal of the wrong type.** An operator with a
reference below it that is left to the engine, at any depth, is lowered to a text that is recognised
as a run-time value, so every parameter of every operation takes it. The scope must not be that of a
stagger's element, which is known already, and no object may have two members of the same name. -/
theorem lower_operator_at_runtime (hscope : scope.staggerItem = none) {e : Expr}
    (hop : e.isOperator = true) (hkeys : ∀ keys ∈ e.objectKeys, keys.Nodup)
    (href : ∃ r ∈ e.references, r.AtRuntime scope) {value : Json}
    (h : e.lower scope = .ok value) :
    (∃ text, value = .string text) ∧ Runtime.isRuntime value = true ∧
      (∀ (op : Signature) (p : Parameter), op.checkType p value = .ok ()) ∧
      ∀ (op : Signature) (name : String), ¬ op.Refuses (name, value) := by
  obtain ⟨r, hr, hruntime⟩ := href
  have hnamed := named_of_lower hscope e h hkeys r hr hruntime
  obtain ⟨text, rfl⟩ := lower_operator_eq_string hop (fold?_of_atRuntime hr hruntime) h
  have hrecognised : Runtime.isRuntime (.string text) = true := Runtime.mentionsScope_iff.mpr hnamed
  refine ⟨⟨text, rfl⟩, hrecognised, ?_, ?_⟩
  · intro op p
    exact Signature.checkType_ok_iff.mpr (.inr hrecognised)
  · intro op name hrefuses
    obtain ⟨p, -, -, htakes⟩ := hrefuses
    exact htakes (.inr hrecognised)

end Expr

/-! ## A list of seats -/

namespace Seats

/-- The body of an action that gets a row. -/
def scope : Scope := .action default ["row"] .named

/-- The row stands below an operator, in an object, in an array, below another operator. -/
def compare : Expr :=
  .binary .eq (.array [.object [("label", .string "\"A\"" .unknown),
    ("taken", .unary .not (.parameter "row" .unknown) .unknown)] .unknown] .unknown)
    (.null .unknown) .unknown

def text : String := "[\x7b\"label\":\"\\\"A\\\"\",\"taken\":\"!$operationdata.row\"\x7d] == null"

end Seats

namespace Expr

/-- The comparison is no literal for any parameter, though its text starts like one. -/
theorem lower_operator_at_runtime_seats :
    Seats.compare.lower Seats.scope = .ok (.string Seats.text) ∧
      Runtime.isRuntime (.string Seats.text) = true ∧
      ∀ (op : Signature) (p : Parameter), op.checkType p (.string Seats.text) = .ok () := by
  have h : Seats.compare.lower Seats.scope = .ok (.string Seats.text) := rfl
  obtain ⟨-, hrecognised, htaken, -⟩ := lower_operator_at_runtime rfl rfl (by decide)
    ⟨.parameter "row" .unknown, List.mem_singleton.mpr rfl, trivial⟩ h
  exact ⟨h, hrecognised, htaken⟩

end Expr

end Cuesheet
