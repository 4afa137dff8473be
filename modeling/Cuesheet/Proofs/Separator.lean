import Mathlib.Data.List.Basic

/-!
# Texts that end behind a separator

Ids and qualified names are put together from two texts with a separator between them. The first
text may hold the separator too, so the place to split is the **last** separator: where the second
texts are free of it, equal wholes have equal parts.
-/

set_option autoImplicit false

namespace Cuesheet.Text

/-- The two parts around the last separator are determined by the whole. -/
theorem eq_of_append_cons_eq {c : Char} {a b a' b' : List Char} (hb : c ∉ b) (hb' : c ∉ b')
    (h : a ++ c :: b = a' ++ c :: b') : a = a' ∧ b = b' := by
  rcases List.append_eq_append_iff.mp h with ⟨t, ha, ht⟩ | ⟨t, ha, ht⟩
  · cases t with
    | nil => simpa [eq_comm] using And.intro ha ht
    | cons d t =>
      obtain ⟨-, rfl⟩ := List.cons.inj ht
      exact absurd hb (by simp)
  · cases t with
    | nil => simpa [eq_comm] using And.intro ha ht
    | cons d t =>
      obtain ⟨-, rfl⟩ := List.cons.inj ht
      exact absurd hb' (by simp)

/-- The same for strings, with the separator as a string of one character. -/
theorem eq_of_append_separator_eq {c : Char} {a b a' b' : String} (hb : c ∉ b.toList)
    (hb' : c ∉ b'.toList) (h : a ++ c.toString ++ b = a' ++ c.toString ++ b') :
    a = a' ∧ b = b' := by
  have hlist : a.toList ++ c :: b.toList = a'.toList ++ c :: b'.toList := by
    simpa using congrArg String.toList h
  obtain ⟨ha, hbb⟩ := eq_of_append_cons_eq hb hb' hlist
  exact ⟨String.toList_inj.mp ha, String.toList_inj.mp hbb⟩

theorem not_mem_toString {c : Char} (hc : c.isDigit = false) (n : Nat) :
    c ∉ (toString n).toList := by
  intro h
  have hdigit : c.isDigit = true :=
    Nat.isDigit_of_mem_toDigits (b := 10) (n := n) (by decide) (by decide)
      (by simpa [toString, Nat.repr] using h)
  rw [hc] at hdigit
  exact absurd hdigit (by simp)

theorem toString_injective {m n : Nat} (h : toString m = toString n) : m = n := by
  have hdigits : Nat.toDigits 10 m = Nat.toDigits 10 n := by
    simpa [toString, Nat.repr] using congrArg String.toList h
  have hvalue := congrArg (fun digits => Nat.ofDigitChars 10 digits 0) hdigits
  simpa using hvalue

end Cuesheet.Text
