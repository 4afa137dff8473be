import Cuesheet.Expr.Basic

/-!
# Reading operators back

The text of a condition is flat: binary operators stand between blanks, in brackets where they are
nested, and unary operators are glued to the front of what they apply to. An `OperatorTree` is what
such a text is made from, and `OperatorTree.read` recovers it.

Two things make that possible. A leaf may hold blanks and brackets, but only inside its string
literals, so a scan that keeps track of quotes finds its end (`splitLeaf_append`). And a minus sign
is an operator in front of anything but a number. Trees of leaves that keep to this are `Readable`,
and a readable tree is read back from its text (`read_text`), whence no two of them share one.
-/

set_option autoImplicit false

namespace Cuesheet

/-- Operators over leaves that are texts. -/
inductive OperatorTree where
  | leaf (text : String)
  | unary (op : UnaryOp) (operand : OperatorTree)
  | binary (op : BinaryOp) (left right : OperatorTree)
  deriving Repr, DecidableEq

namespace OperatorTree

/-! ## Writing -/

/-- Two operands with an operator between them. -/
def pairChars (op : BinaryOp) (left right : List Char) : List Char :=
  left ++ ' ' :: (op.symbol.toList ++ ' ' :: right)

/-- The text of a tree that stands inside an operator. -/
def operandChars : OperatorTree → List Char
  | leaf text => text.toList
  | unary op t => op.symbol.toList ++ t.operandChars
  | binary op l r => '(' :: (pairChars op l.operandChars r.operandChars ++ [')'])

/-- The text of a whole tree: the outermost operator needs no brackets. -/
def chars : OperatorTree → List Char
  | binary op l r => pairChars op l.operandChars r.operandChars
  | t => t.operandChars

def text (t : OperatorTree) : String := String.ofList t.chars

/-! ## Reading -/

/-- Where a scan of a leaf stands: outside of its string literals, inside of one, or there behind a
backslash. -/
inductive Quoting where
  | outside | inside | escaped
  deriving Repr, DecidableEq

namespace Quoting

/-- Takes one character, unless the leaf ends in front of it. -/
def step : Quoting → Char → Option Quoting
  | outside, c =>
    if c = ' ' ∨ c = ')' then none else if c = '"' then some inside else some outside
  | inside, c => if c = '"' then some outside else if c = '\\' then some escaped else some inside
  | escaped, _ => some inside

def run (q : Quoting) (cs : List Char) : Option Quoting := cs.foldlM step q

/-- A scan gets to the end of the text and stands outside of string literals there. -/
def Closed (cs : List Char) : Prop := run .outside cs = some .outside

end Quoting

/-- Splits a text in front of the character at which the scan of a leaf ends. -/
def splitLeaf : Quoting → List Char → List Char × List Char
  | _, [] => ([], [])
  | q, c :: cs =>
    match q.step c with
    | none => ([], c :: cs)
    | some q => (c :: (splitLeaf q cs).1, (splitLeaf q cs).2)

def readLeaf (cs : List Char) : OperatorTree × List Char :=
  (leaf (String.ofList (splitLeaf .outside cs).1), (splitLeaf .outside cs).2)

/-- Reads a binary operator with the blanks around it. -/
def readOperator : List Char → Option (BinaryOp × List Char)
  | ' ' :: cs => do
    let ' ' :: rest := cs.dropWhile (· ≠ ' ') | none
    let op ← BinaryOp.ofSymbol? (String.ofList (cs.takeWhile (· ≠ ' ')))
    return (op, rest)
  | _ => none

/-- Whether a minus sign in front of the text is an operator. What is not in the list starts a
number, and there the sign belongs to it. -/
def startsOperand : List Char → Bool
  | [] => false
  | c :: _ => c ∈ ['(', '!', '-', '$', '"', '[', '\x7b', 't', 'f', 'n']

/-- Reads one operand from the front of a text, with no more than `depth` operators around a leaf.
-/
def readOperand : (depth : Nat) → List Char → Option (OperatorTree × List Char)
  | 0, _ => none
  | depth + 1, cs =>
    match cs with
    | '(' :: cs => do
      let (l, cs) ← readOperand depth cs
      let (op, cs) ← readOperator cs
      let (r, ')' :: cs) ← readOperand depth cs | none
      return (binary op l r, cs)
    | '!' :: cs => do
      let (t, cs) ← readOperand depth cs
      return (unary .not t, cs)
    | '-' :: cs =>
      if startsOperand cs then do
        let (t, cs) ← readOperand depth cs
        return (unary .neg t, cs)
      else some (readLeaf ('-' :: cs))
    | cs => some (readLeaf cs)

/-- Reads a whole text: an operand, and perhaps an operator with a second one behind it. -/
def readWhole (depth : Nat) (cs : List Char) : Option OperatorTree := do
  let (l, cs) ← readOperand depth cs
  if cs = [] then return l
  let (op, cs) ← readOperator cs
  let (r, cs) ← readOperand depth cs
  if cs = [] then return binary op l r
  none

def read (s : String) : Option OperatorTree := readWhole (s.toList.length + 1) s.toList

/-! ## Leaves -/

/-- What can follow an operand. -/
inductive Follows : List Char → Prop
  | nil : Follows []
  | blank {cs : List Char} : Follows (' ' :: cs)
  | bracket {cs : List Char} : Follows (')' :: cs)

theorem splitLeaf_append {cs rest : List Char} {q : Quoting} (h : q.run cs = some .outside)
    (hrest : Follows rest) : splitLeaf q (cs ++ rest) = (cs, rest) := by
  induction cs generalizing q with
  | nil =>
    cases h
    cases hrest <;> rfl
  | cons c cs ih =>
    rw [Quoting.run, List.foldlM_cons] at h
    obtain ⟨q', hstep, h⟩ := Option.bind_eq_some_iff.mp h
    simp only [List.cons_append, splitLeaf, hstep, ih h]

/-- A text that a reader takes for a leaf: a scan gets to its end, and it does not start like an
operator. -/
structure IsLeaf (cs : List Char) : Prop where
  closed : Quoting.Closed cs
  ne_bracket : ∀ rest, cs ≠ '(' :: rest
  ne_not : ∀ rest, cs ≠ '!' :: rest
  number : ∀ rest, cs = '-' :: rest → startsOperand rest = false

theorem readOperand_leaf {cs rest : List Char} (h : IsLeaf cs) (hrest : Follows rest)
    (depth : Nat) :
    readOperand (depth + 1) (cs ++ rest) = some (leaf (String.ofList cs), rest) := by
  have hleaf : readLeaf (cs ++ rest) = (leaf (String.ofList cs), rest) := by
    rw [readLeaf, splitLeaf_append h.closed hrest]
  rw [← hleaf]
  cases cs with
  | nil => cases hrest <;> rfl
  | cons c cs =>
    rw [List.cons_append]
    unfold readOperand
    split
    · rename_i heq
      cases heq
      exact absurd rfl (h.ne_bracket cs)
    · rename_i heq
      cases heq
      exact absurd rfl (h.ne_not cs)
    · rename_i heq
      cases heq
      -- Behind a leaf that is nothing but a sign stands a blank or a bracket, which starts no
      -- operand.
      have hnumber : startsOperand (cs ++ rest) = false := by
        cases cs with
        | nil => cases hrest <;> rfl
        | cons d cs => exact h.number (d :: cs) rfl
      rw [hnumber]
      rfl
    · rfl

/-! ## Operators -/

theorem readOperator_append (op : BinaryOp) (rest : List Char) :
    readOperator (' ' :: (op.symbol.toList ++ ' ' :: rest)) = some (op, rest) := by
  cases op <;> rfl

/-- A tree whose leaves a reader takes for leaves, and that has no minus operator in front of a
number. -/
inductive Readable : OperatorTree → Prop
  | leaf {text : String} (h : IsLeaf text.toList) : Readable (.leaf text)
  | not {t : OperatorTree} (h : Readable t) : Readable (.unary .not t)
  | neg {t : OperatorTree} (h : Readable t) (hstart : startsOperand t.operandChars = true) :
      Readable (.unary .neg t)
  | binary {op : BinaryOp} {l r : OperatorTree} (hl : Readable l) (hr : Readable r) :
      Readable (.binary op l r)

theorem startsOperand_append {cs : List Char} (h : startsOperand cs = true) (rest : List Char) :
    startsOperand (cs ++ rest) = true := by
  cases cs with
  | nil => cases h
  | cons c cs => exact h

/-- Every operator takes up a character at least, so the length of a text bounds the depth of its
tree. -/
theorem readOperand_append {t : OperatorTree} (h : t.Readable) {depth : Nat} {rest : List Char}
    (hdepth : t.operandChars.length < depth) (hrest : Follows rest) :
    readOperand depth (t.operandChars ++ rest) = some (t, rest) := by
  induction h generalizing depth rest with
  | @leaf text h =>
    obtain ⟨depth, rfl⟩ := Nat.exists_eq_add_one_of_ne_zero (Nat.ne_zero_of_lt hdepth)
    rw [operandChars, readOperand_leaf h hrest, String.ofList_toList]
  | @not t h ih =>
    obtain ⟨depth, rfl⟩ := Nat.exists_eq_add_one_of_ne_zero (Nat.ne_zero_of_lt hdepth)
    show (readOperand depth (t.operandChars ++ rest) >>= _) = _
    rw [ih (Nat.lt_of_succ_lt_succ hdepth) hrest]
    rfl
  | @neg t h hstart ih =>
    obtain ⟨depth, rfl⟩ := Nat.exists_eq_add_one_of_ne_zero (Nat.ne_zero_of_lt hdepth)
    show (if startsOperand (t.operandChars ++ rest) then
      (readOperand depth (t.operandChars ++ rest) >>= _) else _) = _
    rw [if_pos (startsOperand_append hstart rest), ih (Nat.lt_of_succ_lt_succ hdepth) hrest]
    rfl
  | @binary op l r hl hr ihl ihr =>
    obtain ⟨depth, rfl⟩ := Nat.exists_eq_add_one_of_ne_zero (Nat.ne_zero_of_lt hdepth)
    have htext : (OperatorTree.binary op l r).operandChars ++ rest = '(' :: (l.operandChars ++
        ' ' :: (op.symbol.toList ++ ' ' :: (r.operandChars ++ ')' :: rest))) := by
      simp [operandChars, pairChars]
    have hlength : (OperatorTree.binary op l r).operandChars.length =
        l.operandChars.length + op.symbol.toList.length + r.operandChars.length + 4 := by
      simp [operandChars, pairChars]
      omega
    rw [htext]
    -- The left operand ends at the blank in front of the operator, the right one at the bracket.
    show (readOperand depth _ >>= _) = _
    rw [ihl (by omega) .blank]
    show (readOperator _ >>= _) = _
    rw [readOperator_append]
    show (readOperand depth _ >>= _) = _
    rw [ihr (by omega) .bracket]
    rfl

theorem readWhole_operand {t : OperatorTree} (h : t.Readable) {depth : Nat}
    (hdepth : t.operandChars.length < depth) : readWhole depth t.operandChars = some t := by
  have hread := readOperand_append h hdepth .nil
  rw [List.append_nil] at hread
  rw [readWhole, hread]
  rfl

theorem readWhole_pair {op : BinaryOp} {l r : OperatorTree} (hl : l.Readable) (hr : r.Readable)
    {depth : Nat} (hdepth : (pairChars op l.operandChars r.operandChars).length < depth) :
    readWhole depth (pairChars op l.operandChars r.operandChars) = some (binary op l r) := by
  simp only [pairChars, List.length_append, List.length_cons] at hdepth
  rw [readWhole, pairChars, readOperand_append hl (by omega) .blank]
  show (readOperator _ >>= _) = _
  rw [readOperator_append]
  have hright : readOperand depth (r.operandChars ++ []) = some (r, []) :=
    readOperand_append hr (by omega) .nil
  rw [List.append_nil] at hright
  show (readOperand _ r.operandChars >>= _) = _
  rw [hright]
  rfl

/-- **A readable tree is read back from its text.** So no two readable trees have one text, which is
what later proofs use. -/
theorem read_text {t : OperatorTree} (h : t.Readable) : read t.text = some t := by
  rw [read, text, String.toList_ofList]
  cases h with
  | leaf h => exact readWhole_operand (.leaf h) (Nat.lt_succ_self _)
  | not h => exact readWhole_operand (.not h) (Nat.lt_succ_self _)
  | neg h hstart => exact readWhole_operand (.neg h hstart) (Nat.lt_succ_self _)
  | binary hl hr => exact readWhole_pair hl hr (Nat.lt_succ_self _)

end OperatorTree

end Cuesheet
