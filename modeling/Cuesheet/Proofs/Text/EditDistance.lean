import Cuesheet.Text.Suggest
import Mathlib.Order.Bounds.Basic

/-!
# The edit distance

`Text.editDistance` fills a table row by row and reads off its last entry. What that number means is
said here without a table: an `Edit` inserts, deletes or replaces one character somewhere in a text,
and the distance is the length of a shortest chain of edits from one text to the other
(`Text.editDistance_isLeast`).

Between the two stands `Text.leastEdits`, the recursion on the first characters of both texts. A
chain of that length is found by following the recursion, and no chain is shorter, because one edit
changes the value by one at most (`Text.leastEdits_le_of_edit`). The table goes by the last
characters, so it holds the values for reversed texts; edits do not mind.
-/

set_option autoImplicit false

namespace Cuesheet.Text

/-! ## Edits -/

/-- One edit: a character is inserted, deleted or replaced. -/
inductive Edit : List Char → List Char → Prop
  | insert (front back : List Char) (c : Char) : Edit (front ++ back) (front ++ c :: back)
  | delete (front back : List Char) (c : Char) : Edit (front ++ c :: back) (front ++ back)
  | replace (front back : List Char) (c d : Char) : Edit (front ++ c :: back) (front ++ d :: back)

/-- So many edits, one after another, turn one text into the other. -/
inductive Edits : Nat → List Char → List Char → Prop
  | refl (text : List Char) : Edits 0 text text
  | step {n : Nat} {first second third : List Char} (before : Edits n first second)
      (edit : Edit second third) : Edits (n + 1) first third

variable {n : Nat} {first second : List Char}

theorem Edit.cons (h : Edit first second) (c : Char) : Edit (c :: first) (c :: second) := by
  cases h with
  | insert front back d => exact .insert (c :: front) back d
  | delete front back d => exact .delete (c :: front) back d
  | replace front back d e => exact .replace (c :: front) back d e

theorem Edits.cons (h : Edits n first second) (c : Char) : Edits n (c :: first) (c :: second) := by
  induction h with
  | refl => exact .refl _
  | step _ edit ih => exact .step ih (edit.cons c)

theorem Edit.reverse (h : Edit first second) : Edit first.reverse second.reverse := by
  cases h with
  | insert front back c => simpa using Edit.insert back.reverse front.reverse c
  | delete front back c => simpa using Edit.delete back.reverse front.reverse c
  | replace front back c d => simpa using Edit.replace back.reverse front.reverse c d

theorem Edits.reverse (h : Edits n first second) : Edits n first.reverse second.reverse := by
  induction h with
  | refl => exact .refl _
  | step _ edit ih => exact .step ih edit.reverse

/-- Of two chains there is a shorter one. -/
theorem Edits.min {m : Nat} (h : Edits n first second) (h' : Edits m first second) :
    Edits (min n m) first second := by
  rcases Nat.le_total n m with hle | hle
  · rwa [Nat.min_eq_left hle]
  · rwa [Nat.min_eq_right hle]

/-! ## The recursion on the first characters -/

/-- The least number of edits: all of a text where the other one is empty, and otherwise the best of
deleting, inserting and replacing a first character. -/
def leastEdits : List Char → List Char → Nat
  | [], ys => ys.length
  | xs, [] => xs.length
  | x :: xs, y :: ys =>
    min (min (leastEdits xs (y :: ys) + 1) (leastEdits (x :: xs) ys + 1))
      (leastEdits xs ys + if x = y then 0 else 1)
termination_by xs ys => xs.length + ys.length

theorem leastEdits_nil_left (ys : List Char) : leastEdits [] ys = ys.length := by
  rw [leastEdits]

theorem leastEdits_nil_right (xs : List Char) : leastEdits xs [] = xs.length := by
  cases xs <;> simp [leastEdits]

theorem leastEdits_cons_cons (x y : Char) (xs ys : List Char) :
    leastEdits (x :: xs) (y :: ys) =
      min (min (leastEdits xs (y :: ys) + 1) (leastEdits (x :: xs) ys + 1))
        (leastEdits xs ys + if x = y then 0 else 1) := by
  rw [leastEdits]

theorem leastEdits_self (text : List Char) : leastEdits text text = 0 := by
  induction text with
  | nil => exact leastEdits_nil_left []
  | cons c text ih => simp [leastEdits_cons_cons, ih]

/-- There is a chain of edits of that length. It follows the recursion: each of the three ways to
treat the first characters is an edit, or none if they are equal. -/
theorem edits_leastEdits (xs ys : List Char) : Edits (leastEdits xs ys) xs ys := by
  fun_induction leastEdits xs ys with
  | case1 ys =>
    induction ys with
    | nil => exact .refl []
    | cons y ys ih => exact .step ih (.insert [] ys y)
  | case2 xs hne =>
    clear hne
    induction xs with
    | nil => exact .refl []
    | cons x xs ih => exact .step (ih.cons x) (.delete [] [] x)
  -- Three chains, one for each way to treat the first characters. The shortest of them has the
  -- length.
  | case3 x xs y ys ihdelete ihinsert ihreplace =>
    have hdelete : Edits (leastEdits xs (y :: ys) + 1) (x :: xs) (y :: ys) :=
      .step (ihdelete.cons x) (.delete [] (y :: ys) x)
    have hinsert : Edits (leastEdits (x :: xs) ys + 1) (x :: xs) (y :: ys) :=
      .step ihinsert (.insert [] ys y)
    have hreplace : Edits (leastEdits xs ys + if x = y then 0 else 1) (x :: xs) (y :: ys) := by
      by_cases hxy : x = y
      · rw [if_pos hxy, ← hxy]
        exact ihreplace.cons x
      · rw [if_neg hxy]
        exact .step (ihreplace.cons x) (.replace [] ys x y)
    exact (hdelete.min hinsert).min hreplace

/-! ## One edit more -/

/-- With one character more, at most one edit more is needed. -/
theorem leastEdits_cons_left_le (x : Char) (xs ys : List Char) :
    leastEdits (x :: xs) ys ≤ leastEdits xs ys + 1 := by
  cases ys with
  | nil => simp [leastEdits_nil_right]
  | cons y ys =>
    rw [leastEdits_cons_cons]
    omega

/-- Two texts that take about the same number of edits from anywhere still do so with one character
in front of both. -/
theorem leastEdits_cons_le {ys zs : List Char}
    (h : ∀ xs, leastEdits xs zs ≤ leastEdits xs ys + 1) (c : Char) (xs : List Char) :
    leastEdits xs (c :: zs) ≤ leastEdits xs (c :: ys) + 1 := by
  induction xs with
  | nil =>
    have hlength := h []
    simp only [leastEdits_nil_left] at hlength ⊢
    simpa using hlength
  | cons x xs ih =>
    have hinsert := h (x :: xs)
    have hreplace := h xs
    simp only [leastEdits_cons_cons]
    omega

/-- The same with any text in front of both. -/
theorem leastEdits_append_le {ys zs : List Char}
    (h : ∀ xs, leastEdits xs zs ≤ leastEdits xs ys + 1) (front xs : List Char) :
    leastEdits xs (front ++ zs) ≤ leastEdits xs (front ++ ys) + 1 := by
  induction front generalizing xs with
  | nil => exact h xs
  | cons c front ih => exact leastEdits_cons_le ih c xs

theorem leastEdits_insert_le (c : Char) (back xs : List Char) :
    leastEdits xs (c :: back) ≤ leastEdits xs back + 1 := by
  cases xs with
  | nil => simp [leastEdits_nil_left]
  | cons x xs =>
    rw [leastEdits_cons_cons]
    omega

theorem leastEdits_delete_le (c : Char) (back xs : List Char) :
    leastEdits xs back ≤ leastEdits xs (c :: back) + 1 := by
  induction xs with
  | nil =>
    simp only [leastEdits_nil_left, List.length_cons]
    omega
  | cons x xs ih =>
    have hfirst := leastEdits_cons_left_le x xs back
    rw [leastEdits_cons_cons]
    omega

theorem leastEdits_replace_le (c d : Char) (back xs : List Char) :
    leastEdits xs (d :: back) ≤ leastEdits xs (c :: back) + 1 := by
  induction xs with
  | nil => simp [leastEdits_nil_left]
  | cons x xs ih =>
    simp only [leastEdits_cons_cons]
    split <;> split <;> omega

/-- One edit of the goal changes the number of edits by one at most. -/
theorem leastEdits_le_of_edit {ys zs : List Char} (h : Edit ys zs) (xs : List Char) :
    leastEdits xs zs ≤ leastEdits xs ys + 1 := by
  cases h with
  | insert front back c => exact leastEdits_append_le (leastEdits_insert_le c back) front xs
  | delete front back c => exact leastEdits_append_le (leastEdits_delete_le c back) front xs
  | replace front back c d => exact leastEdits_append_le (leastEdits_replace_le c d back) front xs

/-- No chain of edits is shorter. By induction on the chain, as one edit changes the distance by one
at most. -/
theorem leastEdits_le_of_edits {xs ys : List Char} (h : Edits n xs ys) : leastEdits xs ys ≤ n := by
  induction h with
  | refl text => exact Nat.le_of_eq (leastEdits_self text)
  | step _ edit ih =>
    have hstep := leastEdits_le_of_edit edit
    exact Nat.le_trans (hstep _) (Nat.succ_le_succ ih)

/-! ## The table -/

/-- A row of the table: the values for a text and longer and longer parts of the other one. The
characters that were passed already are kept in reverse. -/
def tableRow (xs : List Char) : (seen : List Char) → List Char → List Nat
  | seen, [] => [leastEdits xs seen]
  | seen, b :: bs => leastEdits xs seen :: tableRow xs (b :: seen) bs

theorem tableRow_eq_cons (xs seen bs : List Char) :
    ∃ rest, tableRow xs seen bs = leastEdits xs seen :: rest := by
  cases bs with
  | nil => exact ⟨[], rfl⟩
  | cons b bs => exact ⟨_, rfl⟩

theorem tableRow_nil (seen bs : List Char) :
    tableRow [] seen bs = List.range' seen.length (bs.length + 1) := by
  induction bs generalizing seen with
  | nil => simp [tableRow, leastEdits_nil_left]
  | cons b bs ih =>
    rw [tableRow, ih, leastEdits_nil_left]
    rfl

theorem getLast?_tableRow (xs seen bs : List Char) :
    (tableRow xs seen bs).getLast? = some (leastEdits xs (bs.reverse ++ seen)) := by
  induction bs generalizing seen with
  | nil => rfl
  | cons b bs ih =>
    obtain ⟨rest, hrest⟩ := tableRow_eq_cons xs (b :: seen) bs
    have hlast := ih (b :: seen)
    rw [hrest] at hlast
    rw [tableRow, hrest, List.getLast?_cons_cons, hlast]
    simp

/-- One row from the row above it. -/
theorem distanceRow_eq (a : Char) (xs seen bs : List Char) :
    leastEdits (a :: xs) seen ::
        distanceRow a (leastEdits (a :: xs) seen) bs (tableRow xs seen bs) =
      tableRow (a :: xs) seen bs := by
  induction bs generalizing seen with
  | nil => simp [tableRow, distanceRow]
  | cons b bs ih =>
    obtain ⟨rest, hrest⟩ := tableRow_eq_cons xs (b :: seen) bs
    have hnext := ih (b :: seen)
    rw [hrest] at hnext
    rw [tableRow, tableRow, hrest, distanceRow, ← hnext]
    simp only [← leastEdits_cons_cons]

/-- All rows, from the one for the characters passed so far. -/
theorem distanceRows_eq (bs as seen : List Char) :
    distanceRows bs seen.length as (tableRow seen [] bs) = tableRow (as.reverse ++ seen) [] bs := by
  induction as generalizing seen with
  | nil => rfl
  | cons a as ih =>
    have hleft : leastEdits (a :: seen) [] = seen.length + 1 := leastEdits_nil_right (a :: seen)
    have hrow := distanceRow_eq a seen [] bs
    rw [hleft] at hrow
    rw [distanceRows, hrow, ← List.length_cons, ih]
    simp

theorem editDistance_eq (as bs : List Char) :
    editDistance as bs = leastEdits as.reverse bs.reverse := by
  have hfirst : List.range (bs.length + 1) = tableRow [] [] bs := by
    rw [tableRow_nil, List.range_eq_range']
    rfl
  have hrows := distanceRows_eq bs as []
  rw [List.length_nil] at hrows
  rw [editDistance, hfirst, hrows, getLast?_tableRow]
  simp

/-- **The edit distance is the least number of edits** that turn one text into the other. -/
theorem editDistance_isLeast (as bs : List Char) :
    IsLeast {n | Edits n as bs} (editDistance as bs) := by
  rw [editDistance_eq]
  constructor
  · have hchain := (edits_leastEdits as.reverse bs.reverse).reverse
    rwa [List.reverse_reverse, List.reverse_reverse] at hchain
  · intro n hn
    exact leastEdits_le_of_edits (Edits.reverse hn)

end Cuesheet.Text
