import Mathlib.Data.List.Forall2

/-!
# Steps that can fail

Lowering is written as chains of steps, each of which can fail, and so is the binding of arguments;
only what they fail with differs. These lemmas take such a chain apart. With `bind_ok` a proof goes
through a function from its first step to its last in the order in which the function does, and
`list_eq_ok_iff` says of every function that goes through a list what it does to the whole of it.
-/

set_option autoImplicit false

namespace Cuesheet.Except

variable {ε α β : Type}

/-- From a successful chain, the first result and the rest of the chain. Proofs about lowering take
its `do` blocks apart with this, step by step. -/
theorem bind_ok {m : Except ε α} {k : α → Except ε β} {b : β} (h : (m >>= k) = .ok b) :
    ∃ a, m = .ok a ∧ k a = .ok b := by
  cases m with
  | error e => cases h
  | ok a => exact ⟨a, rfl, h⟩

theorem bind_eq_ok_iff {m : Except ε α} {k : α → Except ε β} {b : β} :
    (m >>= k) = .ok b ↔ ∃ a, m = .ok a ∧ k a = .ok b := by
  constructor
  · exact bind_ok
  · rintro ⟨a, rfl, h⟩
    exact h

theorem ok_bind (a : α) (k : α → Except ε β) : ((.ok a : Except ε α) >>= k) = k a := rfl

theorem map_ok {m : Except ε α} {f : α → β} {b : β} (h : m.map f = .ok b) :
    ∃ a, m = .ok a ∧ f a = b := by
  cases m with
  | error e => cases h
  | ok a => exact ⟨a, rfl, Except.ok.inj h⟩

theorem error_of_map {m : Except ε α} {f : α → β} {e : ε} (h : m.map f = .error e) :
    m = .error e := by
  cases m with
  | error e' => exact congrArg _ (Except.error.inj h)
  | ok a => cases h

theorem exists_ok {m : Except ε α} (h : m.toBool = true) : ∃ a, m = .ok a := by
  cases m with
  | error e => cases h
  | ok a => exact ⟨a, rfl⟩

/-- A result of which something is known. On a concrete input the hypothesis can be evaluated, also
where the results themselves cannot be compared. -/
theorem exists_ok_of_map {m : Except ε α} {f : α → β} {b : β} (h : m.toOption.map f = some b) :
    ∃ a, m = .ok a ∧ f a = b := by
  cases m with
  | error e => cases h
  | ok a => exact ⟨a, rfl, Option.some.inj h⟩

/-- Two chains fail alike if their first parts do, and the rests do behind any two results. -/
theorem bind_error_congr {α' β' : Type} {m : Except ε α} {m' : Except ε α'}
    {k : α → Except ε β} {k' : α' → Except ε β'} {e : ε} (hm : ∀ e, m = .error e ↔ m' = .error e)
    (hk : ∀ a a', m = .ok a → m' = .ok a' → (k a = .error e ↔ k' a' = .error e)) :
    (m >>= k) = .error e ↔ (m' >>= k') = .error e := by
  cases m with
  | error first =>
    rw [(hm first).mp rfl]
    simp [bind, Except.bind]
  | ok a =>
    cases m' with
    | error first => cases (hm first).mpr rfl
    | ok a' => exact hk a a' rfl rfl

/-- A function that goes through a list succeeds exactly if it does with every entry, and its
results have the order of the entries. -/
theorem list_eq_ok_iff {step : α → Except ε β} (steps : List α → Except ε (List β))
    (hnil : steps [] = .ok [])
    (hcons : ∀ x xs, steps (x :: xs) = step x >>= fun y => steps xs >>= fun ys => .ok (y :: ys))
    {xs : List α} {ys : List β} :
    steps xs = .ok ys ↔ List.Forall₂ (fun x y => step x = .ok y) xs ys := by
  induction xs generalizing ys with
  | nil =>
    rw [hnil, List.forall₂_nil_left_iff]
    exact ⟨fun h => (Except.ok.inj h).symm, fun h => congrArg _ h.symm⟩
  | cons x xs ih =>
    simp only [hcons, bind_eq_ok_iff, List.forall₂_cons_left_iff, ih]
    constructor
    · rintro ⟨y, hy, rest, hrest, ⟨⟩⟩
      exact ⟨y, rest, hy, hrest, rfl⟩
    · rintro ⟨y, rest, hy, hrest, rfl⟩
      exact ⟨y, hy, rest, hrest, rfl⟩

end Cuesheet.Except
