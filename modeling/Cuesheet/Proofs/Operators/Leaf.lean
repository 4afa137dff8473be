import Cuesheet.Lowering.Value
import Cuesheet.Proofs.Number
import Cuesheet.Proofs.Operators.Reader

/-!
# Values and paths as leaves

The leaves of a condition are JSON texts and paths. Compact JSON has no blanks and no round brackets
outside of its strings, and every string is closed, so each of its texts is a leaf for the reader.
Only a number can start with a minus sign, and then a digit or a point follows.

Where a constant is not a number its text starts like an operand. That is enough for the minus
operator, since in front of a number it is computed at once (`startsOperand_of_neg_eq_none`).
-/

set_option autoImplicit false

namespace Cuesheet

/-- A character that neither ends a leaf nor opens a string literal. -/
def OperatorTree.Plain (c : Char) : Prop := c ≠ ' ' ∧ c ≠ ')' ∧ c ≠ '"'

instance : DecidablePred OperatorTree.Plain :=
  fun c => inferInstanceAs (Decidable (c ≠ ' ' ∧ c ≠ ')' ∧ c ≠ '"'))

/-- A text without blanks, closing brackets and quotes. Identifiers are plain, and so is much else.
-/
def Text.Plain (s : String) : Prop := ∀ c ∈ s.toList, OperatorTree.Plain c

instance : DecidablePred Text.Plain := fun s => List.decidableBAll OperatorTree.Plain s.toList

namespace OperatorTree

namespace Quoting

/-- Quoting is followed character by character, so texts can be taken one after the other. -/
theorem run_append (q : Quoting) (a b : List Char) :
    q.run (a ++ b) = (q.run a).bind fun q => q.run b := List.foldlM_append

theorem Closed.append {a b : List Char} (ha : Closed a) (hb : Closed b) : Closed (a ++ b) := by
  rw [Closed, run_append, ha]
  exact hb

theorem Closed.cons {c : Char} {cs : List Char} (hc : Plain c) (h : Closed cs) :
    Closed (c :: cs) := by
  have hstep : step .outside c = some .outside := by
    rw [step, if_neg (fun hc' => hc'.elim hc.1 hc.2.1), if_neg hc.2.2]
  rw [Closed, run, List.foldlM_cons, hstep]
  exact h

/-- A text with none of the three characters is closed, since it never gets inside a string
literal. -/
theorem closed_of_plain {cs : List Char} (h : ∀ c ∈ cs, Plain c) : Closed cs := by
  induction cs with
  | nil => rfl
  | cons c cs ih =>
    exact .cons (h c List.mem_cons_self) (ih fun d hd => h d (List.mem_cons_of_mem c hd))

/-! ## String literals -/

theorem step_hexDigit (n : Nat) : step .inside (Json.hexDigit n) = some .inside := by
  have hall : ∀ d < 16, step .inside (Nat.digitChar d) = some .inside := by decide
  exact hall _ (Nat.mod_lt _ (by decide))

theorem run_ite {p : Prop} [Decidable p] {q q' : Quoting} {a b : List Char}
    (ha : p → q.run a = some q') (hb : ¬ p → q.run b = some q') :
    q.run (if p then a else b) = some q' := by
  split
  · exact ha ‹p›
  · exact hb ‹¬ p›

/-- Whatever stands for a character inside a literal does not end it: a quote and a backslash get a
backslash in front, and the escapes of control characters have letters and digits only. -/
theorem run_escapeChar (c : Char) : run .inside (Json.escapeChar c) = some .inside := by
  have hdigits : run .inside [Json.hexDigit (c.toNat / 16), Json.hexDigit c.toNat] =
      some .inside := by
    rw [run, List.foldlM_cons, step_hexDigit]
    exact congrArg (· >>= some) (step_hexDigit c.toNat)
  have hself : c ≠ '"' → c ≠ '\\' → run .inside [c] = some .inside := by
    intro hquote hslash
    show (step .inside c >>= some) = some .inside
    rw [step, if_neg hquote, if_neg hslash]
    rfl
  -- The cases are those of the characters with an escape of their own, then the control characters,
  -- then all others.
  unfold Json.escapeChar
  refine run_ite (fun _ => rfl) fun hquote => ?_
  refine run_ite (fun _ => rfl) fun hslash => ?_
  refine run_ite (fun _ => rfl) fun _ => ?_
  refine run_ite (fun _ => rfl) fun _ => ?_
  refine run_ite (fun _ => rfl) fun _ => ?_
  refine run_ite (fun _ => rfl) fun _ => ?_
  refine run_ite (fun _ => rfl) fun _ => ?_
  exact run_ite (fun _ => hdigits) fun _ => hself hquote hslash

/-- **A string literal is closed, whatever is in it.** Blanks and brackets inside of it end no
leaf. -/
theorem closed_quoted (s : String) : Closed (Json.quoted s) := by
  have hinside : ∀ cs : List Char, run .inside (cs.flatMap Json.escapeChar) = some .inside := by
    intro cs
    induction cs with
    | nil => rfl
    | cons c cs ih =>
      rw [List.flatMap_cons, run_append, run_escapeChar]
      exact ih
  show run .inside (s.toList.flatMap Json.escapeChar ++ ['"']) = some .outside
  rw [run_append, hinside]
  rfl

end Quoting

open Quoting

/-- A closed text is a leaf unless it starts like an operator or a bracket. -/
theorem isLeaf_cons {c : Char} {cs : List Char} (h : Closed (c :: cs))
    (hc : c ≠ '(' ∧ c ≠ '!' ∧ c ≠ '-') : IsLeaf (c :: cs) where
  closed := h
  ne_bracket := by
    rintro rest ⟨⟩
    exact hc.1 rfl
  ne_not := by
    rintro rest ⟨⟩
    exact hc.2.1 rfl
  number := by
    rintro rest ⟨⟩
    exact absurd rfl hc.2.2

/-! ## Numbers -/

/-- The text of a number without a sign: no character that ends a leaf, and a start that is not an
operand's, so that a minus sign in front of it belongs to the number. -/
structure Unsigned (cs : List Char) : Prop where
  plain : ∀ c ∈ cs, Plain c
  start : startsOperand cs = false

theorem Unsigned.isLeaf {cs : List Char} (h : Unsigned cs) : IsLeaf cs where
  closed := closed_of_plain h.plain
  ne_bracket := by
    rintro rest rfl
    cases h.start
  ne_not := by
    rintro rest rfl
    cases h.start
  number := by
    rintro rest rfl
    cases h.start

/-- With a minus sign in front it is still one leaf. A reader takes the sign for an operator only if
an operand starts behind it. -/
theorem Unsigned.isLeaf_minus {cs : List Char} (h : Unsigned cs) : IsLeaf ('-' :: cs) where
  closed := .cons (by decide) (closed_of_plain h.plain)
  ne_bracket := nofun
  ne_not := nofun
  number := by
    rintro rest ⟨⟩
    exact h.start

/-- A digit or the point. -/
def IsDecimal (c : Char) : Prop := c.isDigit = true ∨ c = '.'

theorem IsDecimal.plain {c : Char} (h : IsDecimal c) : Plain c := by
  rcases h with h | rfl
  · refine ⟨?_, ?_, ?_⟩ <;> rintro rfl <;> cases h
  · decide

theorem IsDecimal.not_startsOperand {c : Char} (h : IsDecimal c) (cs : List Char) :
    startsOperand (c :: cs) = false := by
  rcases h with h | rfl
  · refine decide_eq_false ?_
    simp only [List.mem_cons, List.not_mem_nil, or_false]
    rintro (rfl | rfl | rfl | rfl | rfl | rfl | rfl | rfl | rfl | rfl) <;> cases h
  · rfl

theorem unsigned_of_decimal {cs : List Char} (h : ∀ c ∈ cs, IsDecimal c) : Unsigned cs where
  plain := fun c hc => (h c hc).plain
  start := by
    cases cs with
    | nil => rfl
    | cons c cs => exact (h c List.mem_cons_self).not_startsOperand cs

theorem isDigit_of_mem_toDigits {n : Nat} {c : Char} (h : c ∈ Nat.toDigits 10 n) :
    c.isDigit = true :=
  Nat.isDigit_of_mem_toDigits (by decide) (by decide) h

/-- The digits of a decimal are digits: either the single zero that is used if no number of places
is enough, or those of a whole number without the zeros at its end. -/
theorem isDigit_of_mem_ofDyadic {tie : Tie} {d : Dyadic} {c : Char}
    (h : c ∈ (Decimal.ofDyadic tie d).digits) : c.isDigit = true := by
  unfold Decimal.ofDyadic at h
  dsimp only at h
  generalize hhit : List.findSome? _ _ = hit at h
  cases hit with
  | none =>
    obtain rfl := List.mem_singleton.mp h
    rfl
  | some decimal =>
    obtain ⟨extra, -, hdecimal⟩ := List.exists_of_findSome?_eq_some hhit
    obtain ⟨n, -, rfl⟩ := Option.map_eq_some_iff.mp hdecimal
    have hkept := List.mem_reverse.mp h
    exact isDigit_of_mem_toDigits (List.mem_reverse.mp ((List.dropWhile_sublist _).mem hkept))

/-- The plain notation has only digits and a point in it. The three cases are those of where the
point stands: in front of the digits, behind them, or among them. -/
theorem unsigned_positional {digits : List Char} (h : ∀ c ∈ digits, c.isDigit = true)
    (point : Int) :
    Unsigned (FloatLayout.value.positional digits point) := by
  refine unsigned_of_decimal ?_
  -- Zeros fill the places between the point and the digits.
  have hzeros : ∀ n, ∀ c ∈ List.replicate n '0', IsDecimal c :=
    fun n c hc => .inl (List.eq_of_mem_replicate hc ▸ rfl)
  unfold FloatLayout.positional
  split
  · simp only [List.mem_cons, List.mem_append]
    rintro c (rfl | rfl | hc | hc)
    · exact .inl rfl
    · exact .inr rfl
    · exact hzeros _ c hc
    · exact .inl (h c hc)
  split
  · simp only [List.mem_append]
    rintro c ((hc | hc) | hc)
    · exact .inl (h c hc)
    · exact hzeros _ c hc
    · have hpair : c = '.' ∨ c = '0' := by simpa [FloatLayout.value] using hc
      rcases hpair with rfl | rfl
      · exact .inr rfl
      · exact .inl rfl
  · simp only [List.mem_append, List.mem_cons]
    rintro c (hc | rfl | hc)
    · exact .inl (h c (List.mem_of_mem_take hc))
    · exact .inr rfl
    · exact .inl (h c (List.mem_of_mem_drop hc))

/-- The notation with an exponent also has the letter and a sign, and still starts with a digit. -/
theorem unsigned_scientific {digits : List Char} (h : ∀ c ∈ digits, c.isDigit = true)
    (exponent : Int) : Unsigned (FloatLayout.scientific digits exponent) where
  plain := by
    have hdigit : ∀ c : Char, c.isDigit = true → Plain c := fun c hc => IsDecimal.plain (.inl hc)
    unfold FloatLayout.scientific
    simp only [List.mem_append, List.mem_cons]
    rintro c ((hc | hc) | rfl | rfl | hc)
    · exact hdigit c (h c (List.mem_of_mem_take hc))
    · split at hc
      · cases hc
      · rcases List.mem_cons.mp hc with rfl | hc
        · decide
        · exact hdigit c (h c (List.mem_of_mem_drop hc))
    · decide
    · split <;> decide
    · exact hdigit c (isDigit_of_mem_toDigits hc)
  start := by
    cases digits with
    | nil => rfl
    | cons c digits => exact IsDecimal.not_startsOperand (.inl (h c List.mem_cons_self)) _

/-- A finite float is a decimal with or without a sign. One that is not finite is written as
null. -/
theorem isLeaf_floatText (x : Float) : IsLeaf (Json.floatText x) := by
  unfold Json.floatText
  split
  · rename_i hfinite
    obtain ⟨d, hd⟩ := Option.isSome_iff_exists.mp ((Number.ofFloat?_isSome x).trans hfinite)
    unfold FloatLayout.write
    rw [hd]
    dsimp only
    have hsize : Unsigned (if d.mantissa = 0 then '0' :: FloatLayout.value.wholeTail
        else FloatLayout.value.ofDecimal (.ofDyadic FloatLayout.value.tie d)) := by
      split
      · have hplain : Text.Plain "0.0" := by decide
        exact ⟨hplain, rfl⟩
      · unfold FloatLayout.ofDecimal
        split
        · exact unsigned_positional (fun _ => isDigit_of_mem_ofDyadic) _
        · exact unsigned_scientific (fun _ => isDigit_of_mem_ofDyadic) _
    split
    · exact hsize.isLeaf_minus
    · exact hsize.isLeaf
  · exact isLeaf_cons (by rfl) (by decide)

theorem isLeaf_wholeText (n : Int) : IsLeaf (Json.wholeText n) := by
  have hdigits : ∀ k, Unsigned (Nat.toDigits 10 k) :=
    fun k => unsigned_of_decimal fun c hc => .inl (isDigit_of_mem_toDigits hc)
  cases n with
  | ofNat k => exact (hdigits k).isLeaf
  | negSucc k => exact (hdigits (k + 1)).isLeaf_minus

/-! ## Values -/

mutual

/-- **Compact JSON is closed.** There are no blanks in it, no round brackets, and every string is
closed, so this passes from the parts to the whole. -/
theorem closed_compactChars : ∀ j : Json, Closed j.compactChars
  | .null => rfl
  | .bool true => rfl
  | .bool false => rfl
  | .int n => (isLeaf_wholeText n).closed
  | .float x => (isLeaf_floatText x).closed
  | .string s => closed_quoted s
  | .array items => .cons (by decide) ((closed_compactItems items).append (by rfl))
  | .object entries => .cons (by decide) ((closed_compactEntries entries).append (by rfl))

theorem closed_compactItems : ∀ items : List Json, Closed (Json.compactItems items)
  | [] => rfl
  | [j] => closed_compactChars j
  | j :: k :: rest => by
    show Closed (j.compactChars ++ ',' :: Json.compactItems (k :: rest))
    exact (closed_compactChars j).append (.cons (by decide) (closed_compactItems (k :: rest)))

theorem closed_compactEntries : ∀ entries : List (String × Json),
    Closed (Json.compactEntries entries)
  | [] => rfl
  | [(name, j)] => (closed_quoted name).append (.cons (by decide) (closed_compactChars j))
  | (name, j) :: entry :: rest => by
    show Closed (Json.quoted name ++ ':' :: (j.compactChars ++ ',' ::
      Json.compactEntries (entry :: rest)))
    refine (closed_quoted name).append (.cons (by decide) ?_)
    exact (closed_compactChars j).append (.cons (by decide) (closed_compactEntries (entry :: rest)))

end

/-- **The text of every value is a leaf.** Numbers are the only values that can start with a minus
sign. -/
theorem isLeaf_compactChars (j : Json) : IsLeaf j.compactChars := by
  cases j with
  | null => exact isLeaf_cons (by rfl) (by decide)
  | bool b => cases b <;> exact isLeaf_cons (by rfl) (by decide)
  | int n => exact isLeaf_wholeText n
  | float x => exact isLeaf_floatText x
  | string s => exact isLeaf_cons (closed_quoted s) (by decide)
  | array items => exact isLeaf_cons (closed_compactChars (.array items)) (by decide)
  | object entries => exact isLeaf_cons (closed_compactChars (.object entries)) (by decide)

/-- A number of machine size has a negative, and the text of anything else starts like an operand.
-/
theorem startsOperand_of_neg_eq_none {j : Json} (h : UnaryOp.neg.apply? j = none)
    (hj : ∀ n, j = .int n → n.natAbs < 2 ^ 64) : startsOperand j.compactChars = true := by
  -- A finite number has a finite negative, so without a result there was no finite number.
  have hnumber : ∀ x, j.number? = some x → x.isFinite = false := by
    intro x hx
    have hnone : Json.ofNumber? (-x) = none := by
      have hbind : (j.number?.bind fun x => Json.ofNumber? (-x)) = none := h
      rwa [hx] at hbind
    cases hfinite : x.isFinite with
    | false => rfl
    | true =>
      have hsome : (Json.ofNumber? (-x)).isSome = true :=
        (Json.isSome_ofNumber? (-x)).trans (Number.isFinite_neg hfinite)
      rw [hnone] at hsome
      cases hsome
  cases j with
  | null => rfl
  | bool b => cases b <;> rfl
  | int n =>
    have hfinite : (Float.ofInt n).isFinite = true := Number.isFinite_ofInt (hj n rfl)
    have hinfinite := hnumber (Float.ofInt n) rfl
    rw [hfinite] at hinfinite
    cases hinfinite
  | float x =>
    have hnull : Json.floatText x = "null".toList :=
      if_neg (by simp [hnumber x rfl])
    show startsOperand (Json.floatText x) = true
    rw [hnull]
    rfl
  | string s => rfl
  | array items => rfl
  | object entries => rfl

end OperatorTree

open OperatorTree

/-! ## Paths -/

/-- A path into the data of the engine that a reader takes for a leaf. -/
def DataPath.Readable (s : String) : Prop :=
  ∃ root ∈ Runtime.scopes, ∃ tail, s.toList = root.toList ++ tail ∧
    Runtime.endsScope tail = true ∧ ∀ c ∈ tail, OperatorTree.Plain c

namespace DataPath.Readable

theorem startsWith_append (front rest : List Char) :
    Runtime.startsWith front (front ++ rest) = true := by
  induction front with
  | nil => rfl
  | cons c front ih => simpa [Runtime.startsWith] using ih

variable {s : String}

/-- What is readable is recognised as a path, and then it is written without quotes. -/
theorem isPath (h : Readable s) : Runtime.isPath s = true := by
  obtain ⟨root, hroot, tail, hs, htail, -⟩ := h
  refine List.any_eq_true.mpr ⟨root, hroot, ?_⟩
  simp only [hs, startsWith_append, List.drop_left, htail, Bool.and_self]

/-- The name of a data scope starts with a dollar sign and is plain. -/
theorem exists_cons (h : Readable s) : ∃ cs, s.toList = '$' :: cs ∧ Text.Plain s := by
  obtain ⟨root, hroot, tail, hs, -, htail⟩ := h
  have hall : ∀ root ∈ Runtime.scopes, root.toList = '$' :: root.toList.tail ∧ Text.Plain root := by
    decide
  obtain ⟨hname, hplain⟩ := hall root hroot
  refine ⟨root.toList.tail ++ tail, by rw [hs, hname]; rfl, ?_⟩
  intro c hc
  rw [hs] at hc
  rcases List.mem_append.mp hc with hc | hc
  · exact hplain c hc
  · exact htail c hc

theorem isLeaf (h : Readable s) : IsLeaf s.toList := by
  obtain ⟨cs, hs, hplain⟩ := h.exists_cons
  have hclosed := Quoting.closed_of_plain hplain
  rw [hs] at hclosed ⊢
  exact isLeaf_cons hclosed (by decide)

theorem startsOperand (h : Readable s) : startsOperand s.toList = true := by
  obtain ⟨cs, hs, -⟩ := h.exists_cons
  rw [hs]
  rfl

/-- A path that goes on behind the name of a scope with a plain text. All paths that lowering makes
are of this form. -/
theorem append (root tail rest : String) (hrest : Text.Plain rest)
    (h : root ∈ Runtime.scopes ∧ Runtime.endsScope tail.toList = true ∧ tail.toList ≠ [] ∧
      Text.Plain tail) : Readable (root ++ tail ++ rest) := by
  obtain ⟨hroot, htail, hne, hplain⟩ := h
  refine ⟨root, hroot, tail.toList ++ rest.toList, ?_, ?_, ?_⟩
  · simp only [String.toList_append, List.append_assoc]
  · cases hlist : tail.toList with
    | nil => exact absurd hlist hne
    | cons c cs => rwa [hlist] at htail
  · intro c hc
    rcases List.mem_append.mp hc with hc | hc
    · exact hplain c hc
    · exact hrest c hc

theorem of_loopItem : Readable loopItem :=
  append "$scope" ".current" "Item" (by decide) (by decide)

theorem of_parameter {name : String} (h : Text.Plain name) : Readable (parameter name) :=
  append "$operationdata" "." name h (by decide)

theorem of_system {name : String} (h : Text.Plain name) : Readable (system name) :=
  append "$scope" "." name h (by decide)

theorem of_localVariable {name : String} (h : Text.Plain name) : Readable (localVariable name) :=
  append "$scope" ".variables." name h (by decide)

theorem of_globalVariable {name : String} (h : Text.Plain name) : Readable (globalVariable name) :=
  append "$globaldata" "." name h (by decide)

theorem of_eventArgument (index : Nat) : Readable (eventArgument index) := by
  have hrest : Text.Plain (toString index ++ "]") := by
    intro c hc
    simp only [String.toList_append, List.mem_append] at hc
    rcases hc with hc | hc
    · exact IsDecimal.plain
        (.inl (isDigit_of_mem_toDigits (by simpa [toString, Nat.repr] using hc)))
    · obtain rfl := List.mem_singleton.mp hc
      decide
  unfold eventArgument
  simp only [String.append_assoc]
  exact append "$operationdata" ".eventArgs[" _ hrest (by decide)

theorem of_chain {root : String} {properties : List String} (hroot : chain root [] ∈ Runtime.scopes)
    (h : ∀ p ∈ properties, Text.Plain p) : Readable (chain root properties) := by
  refine ⟨_, hroot, (properties.map fun p => "." ++ p).flatMap String.toList, ?_, ?_, ?_⟩
  · simp [chain, String.toList_append, String.toList_join]
  · cases properties with
    | nil => rfl
    | cons p rest => simp [Runtime.endsScope, String.toList_append]
  · simp only [List.mem_flatMap, List.mem_map]
    rintro c ⟨_, ⟨p, hp, rfl⟩, hc⟩
    simp only [String.toList_append, List.mem_append] at hc
    rcases hc with hc | hc
    · obtain rfl := List.mem_singleton.mp hc
      decide
    · exact h p hp c hc

end DataPath.Readable

end Cuesheet
