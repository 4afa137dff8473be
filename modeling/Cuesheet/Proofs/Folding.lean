import Cuesheet.Lowering.Draft
import Cuesheet.Proofs.Scope
import Mathlib.Data.List.Induction

/-!
# Which declarations are constant

A list of declarations is folded from the front, each initialiser against the constants that the
declarations before it have bound. `Constants.FoldsAt` says that a declaration folds at its place,
and `Constants.FirstFold` that no declaration of the same name has folded before it. Exactly these
bind their names (`Constants.get?_ofDeclarations_iff`).

Nothing is lost by folding early. A binding stays as it is while more names are bound
(`Constants.get?_behind`), and an expression that has a value keeps it when more constants are known
(`Expr.fold?_mono`). So an initialiser has the same value against all constants of a program as it
had at its place.
-/

set_option autoImplicit false

namespace Cuesheet

/-! ## More constants -/

/-- `t` knows every constant of `s`, with the same value. -/
def Extends (s t : String → Option Json) : Prop :=
  ∀ name value, s name = some value → t name = some value

namespace Expr

variable {s t : String → Option Json}

mutual

/-- **Folding only gains from knowing more constants.** An operator that has a value has it because
both operands have one, and by induction they keep it. -/
theorem fold?_mono (h : Extends s t) :
    ∀ (e : Expr) {value : Json}, e.fold? s = some value → e.fold? t = some value
  | .variable name _, value, hvalue => h name value hvalue
  | .array elements _, _, hvalue => by
    obtain ⟨values, hvalues, rfl⟩ := Option.map_eq_some_iff.mp hvalue
    exact Option.map_eq_some_iff.mpr ⟨values, foldList?_mono h elements hvalues, rfl⟩
  | .object properties _, _, hvalue => by
    obtain ⟨entries, hentries, rfl⟩ := Option.map_eq_some_iff.mp hvalue
    exact Option.map_eq_some_iff.mpr ⟨entries, foldProperties?_mono h properties hentries, rfl⟩
  | .unary op operand _, _, hvalue => by
    obtain ⟨v, hv, hvalue⟩ := Option.bind_eq_some_iff.mp hvalue
    exact Option.bind_eq_some_iff.mpr ⟨v, fold?_mono h operand hv, hvalue⟩
  | .binary op left right _, _, hvalue => by
    obtain ⟨l, hl, hvalue⟩ := Option.bind_eq_some_iff.mp hvalue
    obtain ⟨r, hr, hvalue⟩ := Option.bind_eq_some_iff.mp hvalue
    exact Option.bind_eq_some_iff.mpr ⟨l, fold?_mono h left hl,
      Option.bind_eq_some_iff.mpr ⟨r, fold?_mono h right hr, hvalue⟩⟩
  | .string _ _, _, hvalue | .number _ _, _, hvalue | .boolean _ _, _, hvalue | .null _, _, hvalue
  | .parameter _ _, _, hvalue | .system _ _, _, hvalue | .chain _ _ _, _, hvalue => hvalue

theorem foldList?_mono (h : Extends s t) :
    ∀ (es : List Expr) {values : List Json}, foldList? s es = some values →
      foldList? t es = some values
  | [], _, hvalues => hvalues
  | e :: rest, _, hvalues => by
    obtain ⟨v, hv, hvalues⟩ := Option.bind_eq_some_iff.mp hvalues
    obtain ⟨vs, hvs, hvalues⟩ := Option.bind_eq_some_iff.mp hvalues
    exact Option.bind_eq_some_iff.mpr ⟨v, fold?_mono h e hv,
      Option.bind_eq_some_iff.mpr ⟨vs, foldList?_mono h rest hvs, hvalues⟩⟩

theorem foldProperties?_mono (h : Extends s t) :
    ∀ (properties : List (String × Expr)) {entries : List (String × Json)},
      foldProperties? s properties = some entries → foldProperties? t properties = some entries
  | [], _, hentries => hentries
  | (key, e) :: rest, _, hentries => by
    obtain ⟨v, hv, hentries⟩ := Option.bind_eq_some_iff.mp hentries
    obtain ⟨vs, hvs, hentries⟩ := Option.bind_eq_some_iff.mp hentries
    exact Option.bind_eq_some_iff.mpr ⟨v, fold?_mono h e hv,
      Option.bind_eq_some_iff.mpr ⟨vs, foldProperties?_mono h rest hvs, hentries⟩⟩

end

end Expr

/-! ## One declaration after another -/

namespace Constants

/-- What is bound already stays, and otherwise the declaration binds its name if it folds. -/
theorem get?_tryBind (constants : Constants) (d : Declaration) (constant? : String → Option Json)
    (name : String) :
    (constants.tryBind d constant?).get? name =
      (constants.get? name).or
        (if name = d.name then (d.value.fold? constant?).map (.ofDeclaration d) else none) := by
  unfold tryBind
  split
  · rename_i value hvalue
    rw [get?_bind, hvalue, Option.map_some]
  · rename_i hvalue
    rw [hvalue, Option.map_none, ite_self, Option.or_none]

/-- Declarations are folded from the front, so proofs about them go by induction from the end. -/
theorem ofDeclarations_concat (before : List Declaration) (d : Declaration) :
    ofDeclarations (before ++ [d]) =
      (ofDeclarations before).tryBind d (ofDeclarations before).constant? := by
  unfold ofDeclarations
  rw [List.foldl_append]
  rfl

/-- Declarations that follow leave a binding as it is. The first binding of a name is the only
one. -/
theorem get?_behind {before declarations : List Declaration} (h : before <+: declarations)
    {name : String} {b : Binding} (hb : (ofDeclarations before).get? name = some b) :
    (ofDeclarations declarations).get? name = some b := by
  obtain ⟨behind, rfl⟩ := h
  induction behind using List.reverseRecOn with
  | nil =>
    rw [List.append_nil]
    exact hb
  | append_singleton behind d ih =>
    rw [← List.append_assoc, ofDeclarations_concat, get?_tryBind, ih, Option.some_or]

theorem extends_behind {before declarations : List Declaration} (h : before <+: declarations) :
    Extends (ofDeclarations before).constant? (ofDeclarations declarations).constant? := by
  intro name value hvalue
  obtain ⟨b, hb, rfl⟩ := Option.map_eq_some_iff.mp hvalue
  exact Option.map_eq_some_iff.mpr ⟨b, get?_behind h hb, rfl⟩

/-! ## The declarations that bind -/

/-- `d` stands behind `before`, and folds against the constants that are declared there. -/
def FoldsAt (declarations before : List Declaration) (d : Declaration) (value : Json) : Prop :=
  before ++ [d] <+: declarations ∧ d.value.fold? (ofDeclarations before).constant? = some value

/-- `d` is the first declaration of its name that folds at its place. -/
structure FirstFold (declarations before : List Declaration) (d : Declaration) (value : Json) :
    Prop where
  folds : FoldsAt declarations before d value
  first : ∀ earlier c other, FoldsAt before earlier c other → c.name ≠ d.name

theorem FoldsAt.behind {declarations more before : List Declaration} {d : Declaration}
    {value : Json} (h : FoldsAt declarations before d value) (hmore : declarations <+: more) :
    FoldsAt more before d value :=
  ⟨h.1.trans hmore, h.2⟩

/-- A name is free as long as no declaration of it folds. -/
theorem get?_ofDeclarations_eq_none_iff {declarations : List Declaration} {name : String} :
    (ofDeclarations declarations).get? name = none ↔
      ∀ before d value, FoldsAt declarations before d value → d.name ≠ name := by
  constructor
  · rintro hnone before d value h rfl
    -- Right behind the declaration the name is bound, and it stays so.
    have hbound : (ofDeclarations (before ++ [d])).get? d.name ≠ none := by
      rw [ofDeclarations_concat, get?_tryBind, h.2]
      simp
    obtain ⟨b, hb⟩ := Option.ne_none_iff_exists'.mp hbound
    rw [get?_behind h.1 hb] at hnone
    cases hnone
  · intro h
    induction declarations using List.reverseRecOn with
    | nil => rfl
    | append_singleton declarations last ih =>
      have hearlier : (ofDeclarations declarations).get? name = none :=
        ih fun before d value hfolds => h before d value (hfolds.behind (List.prefix_append _ _))
      rw [ofDeclarations_concat, get?_tryBind, hearlier, Option.none_or]
      split
      · rename_i hname
        cases hfold : last.value.fold? (ofDeclarations declarations).constant? with
        | none => rfl
        | some value =>
          have := h declarations last value ⟨List.prefix_refl _, hfold⟩
          exact absurd hname.symm this
      · rfl

/-- The first declaration of a name that folds finds the name free, and binds it for good. -/
theorem FirstFold.get? {declarations before : List Declaration} {d : Declaration} {value : Json}
    (h : FirstFold declarations before d value) {more : List Declaration}
    (hmore : before ++ [d] <+: more) :
    (ofDeclarations more).get? d.name = some ⟨d.name, value, value.kind, d.location⟩ := by
  apply get?_behind hmore
  have hfree := get?_ofDeclarations_eq_none_iff.mpr h.first
  rw [ofDeclarations_concat, get?_tryBind, hfree, h.folds.2, Option.none_or, if_pos rfl]
  rfl

/-- A bound name has its value and its place from the first declaration that folds. -/
theorem get?_ofDeclarations_iff {declarations : List Declaration} {name : String} {b : Binding} :
    (ofDeclarations declarations).get? name = some b ↔
      ∃ before d value, FirstFold declarations before d value ∧ d.name = name ∧
        b = ⟨d.name, value, value.kind, d.location⟩ := by
  constructor
  · intro hb
    induction declarations using List.reverseRecOn with
    | nil => cases hb
    | append_singleton declarations last ih =>
      rw [ofDeclarations_concat, get?_tryBind] at hb
      rcases Option.or_eq_some_iff.mp hb with hb | ⟨hfree, hb⟩
      · obtain ⟨before, d, value, h, hname, rfl⟩ := ih hb
        exact ⟨before, d, value, ⟨h.folds.behind (List.prefix_append _ _), h.first⟩, hname, rfl⟩
      · -- The last declaration binds the name only if no earlier one of it has folded.
        split at hb
        · rename_i hname
          obtain ⟨value, hvalue, rfl⟩ := Option.map_eq_some_iff.mp hb
          refine ⟨declarations, last, value, ⟨⟨List.prefix_refl _, hvalue⟩, ?_⟩, hname.symm, rfl⟩
          rw [hname] at hfree
          exact get?_ofDeclarations_eq_none_iff.mp hfree
        · cases hb
  · rintro ⟨before, d, value, h, rfl, rfl⟩
    exact h.get? h.folds.1

/-- A name is bound exactly if some declaration of it folds at its place. -/
theorem contains_ofDeclarations_iff {declarations : List Declaration} {name : String} :
    (ofDeclarations declarations).contains name = true ↔
      ∃ before d value, FoldsAt declarations before d value ∧ d.name = name := by
  rw [contains, ← Option.not_isNone, Bool.not_eq_true', ← Bool.not_eq_true,
    Option.isNone_iff_eq_none, get?_ofDeclarations_eq_none_iff]
  push Not
  rfl

/-- Folded again with all constants known, an initialiser has the value that it had at its place. -/
theorem FoldsAt.fold?_eq {declarations before : List Declaration} {d : Declaration} {value : Json}
    (h : FoldsAt declarations before d value) :
    d.value.fold? (ofDeclarations declarations).constant? = some value :=
  d.value.fold?_mono (extends_behind ((List.prefix_append _ _).trans h.1)) h.2

end Constants

/-- **A program binds each name that some declaration folds, and the first to fold decides.**
Nothing that comes behind it changes the binding, and with all constants known the declaration still
folds to the bound value, as folding only gains from knowing more. -/
theorem Program.constants_first_fold (p : Program) :
    (∀ name, p.constants.contains name = true ↔
      ∃ before d value, Constants.FoldsAt p.declarations before d value ∧ d.name = name) ∧
    (∀ name b, p.constants.get? name = some b ↔
      ∃ before d value, Constants.FirstFold p.declarations before d value ∧ d.name = name ∧
        b = ⟨d.name, value, value.kind, d.location⟩) ∧
    (∀ before d value, Constants.FirstFold p.declarations before d value →
      (∀ more, before ++ [d] <+: more →
        (Constants.ofDeclarations more).get? d.name =
          some ⟨d.name, value, value.kind, d.location⟩) ∧
      d.value.fold? p.constants.constant? = some value) ∧
    ∀ s t, Extends s t → ∀ (e : Expr) value, e.fold? s = some value → e.fold? t = some value := by
  refine ⟨fun name => Constants.contains_ofDeclarations_iff,
    fun name b => Constants.get?_ofDeclarations_iff, ?_, fun s t h e value => e.fold?_mono h⟩
  intro before d value h
  exact ⟨fun more hmore => h.get? hmore, h.folds.fold?_eq⟩

namespace Countdown

/-- `total` is declared three times. The first initialiser comes before the constant that it asks
for. -/
def early : Declaration := ⟨"total", .variable "base" ⟨1, 9, 5⟩, ⟨1, 1, 5⟩⟩

def base : Declaration := ⟨"base", .number 2 ⟨2, 8, 1⟩, ⟨2, 1, 4⟩⟩

def total : Declaration :=
  ⟨"total", .binary .mul (.variable "base" ⟨3, 9, 5⟩) (.number 3 ⟨3, 17, 1⟩) ⟨3, 9, 9⟩, ⟨3, 1, 5⟩⟩

def late : Declaration := ⟨"total", .number 9 ⟨4, 9, 1⟩, ⟨4, 1, 5⟩⟩

def program : Program where
  elements := [.declaration early, .declaration base, .declaration total, .declaration late]
  location := .unknown

end Countdown

/-- The first `total` comes too early to fold. The second one folds and binds the name, and the
third one folds too late. -/
theorem Program.constants_first_fold_countdown :
    Constants.FirstFold Countdown.program.declarations [Countdown.early, Countdown.base]
      Countdown.total (.int 6) ∧
    Countdown.program.constants.get? "total" = some ⟨"total", .int 6, .number, ⟨3, 1, 5⟩⟩ ∧
    Countdown.total.value.fold? Countdown.program.constants.constant? = some (.int 6) := by
  have hfree : (Constants.ofDeclarations [Countdown.early, Countdown.base]).get?
      Countdown.total.name = none := rfl
  have h : Constants.FirstFold Countdown.program.declarations [Countdown.early, Countdown.base]
      Countdown.total (.int 6) :=
    ⟨⟨⟨[Countdown.late], rfl⟩, rfl⟩, Constants.get?_ofDeclarations_eq_none_iff.mp hfree⟩
  obtain ⟨hbound, hfold⟩ := (Program.constants_first_fold Countdown.program).2.2.1 _ _ _ h
  exact ⟨h, hbound _ ⟨[Countdown.late], rfl⟩, hfold⟩

end Cuesheet
