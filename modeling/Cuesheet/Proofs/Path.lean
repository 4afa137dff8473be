import Cuesheet.Library.Documents
import Mathlib.Data.List.Basic

/-!
# Normalised paths

Normalising a path twice is normalising it once. The components of a normalised path form a stack
of a certain shape (`Stack`): ordinary names, below which only a relative path has `..` components.
Every step of the walk keeps that shape, and walking along a stack of that shape builds the stack
again. Splitting undoes joining, so the written path has these components and no others.

A path that a document writes is resolved to a normalised one. Documents are kept under normalised
paths, so a resolved path is its own key.
-/

set_option autoImplicit false

namespace Cuesheet.Path

/-! ## Splitting and joining -/

/-- The two equations of splitting, at the end of a path and at a slash. -/
theorem split_of_not_mem : ∀ {part : List Char}, '/' ∉ part → split part = [part]
  | [], _ => rfl
  | c :: rest, h => by
    rw [List.mem_cons, not_or] at h
    rw [split, if_neg (Ne.symm h.1), split_of_not_mem h.2]

theorem split_append_slash : ∀ {part : List Char} (rest : List Char), '/' ∉ part →
    split (part ++ '/' :: rest) = part :: split rest
  | [], rest, _ => by simp [split]
  | c :: part, rest, h => by
    rw [List.mem_cons, not_or] at h
    rw [List.cons_append, split, if_neg (Ne.symm h.1), split_append_slash rest h.2]

/-- **Splitting undoes joining** for components without a slash. An empty list is the exception: it
is written as nothing, and nothing is split into one empty component. -/
theorem split_join : ∀ {parts : List (List Char)}, parts ≠ [] → (∀ part ∈ parts, '/' ∉ part) →
    split (join parts) = parts
  | [], h, _ => absurd rfl h
  | [part], _, h => split_of_not_mem (h part (by simp))
  | part :: next :: parts, _, h => by
    have hrest : split (join (next :: parts)) = next :: parts :=
      split_join (by simp) fun other hother => h other (List.mem_cons_of_mem _ hother)
    rw [join, split_append_slash _ (h part (by simp)), hrest]
    simp

/-- A component is made of the characters of the path, and none of them is a slash. -/
theorem mem_split {path part : List Char} {c : Char} (hpart : part ∈ split path) (hc : c ∈ part) :
    c ∈ path ∧ c ≠ '/' := by
  induction path generalizing part with
  | nil =>
    rw [split, List.mem_singleton] at hpart
    exact absurd hc (by simp [hpart])
  | cons d rest ih =>
    rw [split] at hpart
    split at hpart
    · -- A slash starts a new component, and any other character goes into the first one.
      rcases List.mem_cons.mp hpart with rfl | hpart
      · exact absurd hc (by simp)
      · obtain ⟨hmem, hne⟩ := ih hpart hc
        exact ⟨List.mem_cons_of_mem _ hmem, hne⟩
    · rename_i hd
      split at hpart
      · rename_i first others hsplit
        rcases List.mem_cons.mp hpart with rfl | hpart
        · rcases List.mem_cons.mp hc with rfl | hc
          · exact ⟨List.mem_cons_self, hd⟩
          · obtain ⟨hmem, hne⟩ := ih (hsplit ▸ List.mem_cons_self) hc
            exact ⟨List.mem_cons_of_mem _ hmem, hne⟩
        · obtain ⟨hmem, hne⟩ := ih (hsplit ▸ List.mem_cons_of_mem _ hpart) hc
          exact ⟨List.mem_cons_of_mem _ hmem, hne⟩
      · rw [List.mem_singleton] at hpart
        subst hpart
        rw [List.mem_singleton.mp hc]
        exact ⟨List.mem_cons_self, hd⟩

theorem mem_join {parts : List (List Char)} {c : Char} (h : c ∈ join parts) :
    c = '/' ∨ ∃ part ∈ parts, c ∈ part := by
  induction parts with
  | nil => exact absurd h (by simp [join])
  | cons part rest ih =>
    cases rest with
    | nil => exact .inr ⟨part, by simp, h⟩
    | cons next rest =>
      rw [join, List.mem_append, List.mem_cons] at h
      · rcases h with h | h | h
        · exact .inr ⟨part, by simp, h⟩
        · exact .inl h
        · exact (ih h).imp_right fun ⟨other, hother, hc⟩ =>
            ⟨other, List.mem_cons_of_mem _ hother, hc⟩
      · simp

/-! ## The shape of a normalised path -/

/-- A component that is a name. -/
def Ordinary (part : List Char) : Prop := part ≠ [] ∧ part ≠ ['.'] ∧ part ≠ ['.', '.']

/-- The components of a normalised path, last one first: `..` stands only at the start of a
relative one. -/
inductive Stack (absolute : Bool) : List (List Char) → Prop
  | nil : Stack absolute []
  | up {passed : List (List Char)} (habsolute : absolute = false)
      (hpassed : ∀ part ∈ passed, part = ['.', '.']) (h : Stack absolute passed) :
      Stack absolute (['.', '.'] :: passed)
  | down {part : List Char} {passed : List (List Char)} (hpart : Ordinary part)
      (h : Stack absolute passed) : Stack absolute (part :: passed)

theorem Stack.tail {absolute : Bool} {part : List Char} {passed : List (List Char)}
    (h : Stack absolute (part :: passed)) : Stack absolute passed := by
  cases h with
  | up _ _ h => exact h
  | down _ h => exact h

theorem step_ordinary {part : List Char} (hpart : Ordinary part) (absolute : Bool)
    (passed : List (List Char)) : step absolute passed part = part :: passed := by
  obtain ⟨hempty, hdot, hup⟩ := hpart
  unfold step
  rw [if_neg (by simp [hempty, hdot]), if_neg hup]

/-- A step out of a relative path that leads nowhere else. -/
theorem step_up {passed : List (List Char)} (h : ∀ part ∈ passed, part = ['.', '.']) :
    step false passed ['.', '.'] = ['.', '.'] :: passed := by
  cases passed with
  | nil => rfl
  | cons last before =>
    rw [h last (by simp)]
    rfl

/-- One step keeps the shape. A `..` takes a name off the stack, or is put on other `..` of a
relative path; an absolute path has no `..` on its stack, since there is nothing above the root. -/
theorem Stack.step {absolute : Bool} {passed : List (List Char)} (h : Stack absolute passed)
    (part : List Char) : Stack absolute (step absolute passed part) := by
  by_cases hskip : part = [] ∨ part = ['.']
  · unfold Path.step
    rw [if_pos hskip]
    exact h
  · by_cases hup : part = ['.', '.']
    · unfold Path.step
      rw [if_neg hskip, if_pos hup]
      cases passed with
      | nil =>
        cases absolute with
        | true => exact .nil
        | false => exact hup ▸ .up rfl (by simp) .nil
      | cons last before =>
        -- A `..` on top can only be there in a relative path, and then all below it are `..` as
        -- well.
        by_cases hlast : last = ['.', '.']
        · cases absolute with
          | true => simpa [hlast] using h
          | false =>
            have hbefore : ∀ other ∈ last :: before, other = ['.', '.'] := by
              cases h with
              | up _ hpassed _ => simpa using hpassed
              | down hordinary _ => exact absurd hlast hordinary.2.2
            simp only [hlast, if_true, Bool.false_eq_true, if_false, hup]
            rw [hlast] at h hbefore
            exact .up rfl hbefore h
        · simp only [hlast, if_false]
          exact h.tail
    · rw [not_or] at hskip
      have hordinary : Ordinary part := ⟨hskip.1, hskip.2, hup⟩
      rw [step_ordinary hordinary]
      exact .down hordinary h

/-- What one step keeps, a whole walk keeps. -/
theorem Stack.foldl {absolute : Bool} : ∀ (parts : List (List Char)) {passed : List (List Char)},
    Stack absolute passed → Stack absolute (parts.foldl (Path.step absolute) passed)
  | [], _, h => h
  | part :: parts, _, h => Stack.foldl parts (h.step part)

/-- Walking along a stack builds it again. None of its components takes back another one, because no
`..` stands behind a name. -/
theorem Stack.foldl_reverse {absolute : Bool} {passed : List (List Char)}
    (h : Stack absolute passed) : passed.reverse.foldl (Path.step absolute) [] = passed := by
  induction h with
  | nil => rfl
  | up habsolute hpassed _ ih =>
    subst habsolute
    rw [List.reverse_cons, List.foldl_append, ih]
    exact step_up hpassed
  | down hpart _ ih =>
    rw [List.reverse_cons, List.foldl_append, ih]
    exact step_ordinary hpart _ _

/-! ## Normalising twice -/

theorem mem_step {absolute : Bool} {passed : List (List Char)} {part other : List Char}
    (h : other ∈ step absolute passed part) : other ∈ passed ∨ other = part := by
  unfold step at h
  split at h
  · exact .inl h
  · split at h
    · split at h
      · split at h
        · split at h
          · exact .inl h
          · exact (List.mem_cons.mp h).symm
        · exact .inl (List.mem_cons_of_mem _ h)
      · split at h
        · exact absurd h (by simp)
        · exact .inr (List.mem_singleton.mp h)
    · exact (List.mem_cons.mp h).symm

theorem mem_foldl_step {absolute : Bool} {other : List Char} :
    ∀ (parts : List (List Char)) {passed : List (List Char)},
      other ∈ parts.foldl (step absolute) passed → other ∈ passed ∨ other ∈ parts
  | [], _, h => .inl h
  | part :: parts, passed, h => by
    rcases mem_foldl_step parts h with h | h
    · rcases mem_step h with h | h
      · exact .inl h
      · exact .inr (h ▸ List.mem_cons_self)
    · exact .inr (List.mem_cons_of_mem _ h)

theorem mem_parts {path part : List Char} {c : Char} (hpart : part ∈ parts path) (hc : c ∈ part) :
    c ∈ path ∧ c ≠ '/' := by
  rw [parts, List.mem_reverse] at hpart
  exact mem_split ((mem_foldl_step _ hpart).resolve_left (by simp)) hc

theorem parts_stack (path : List Char) : Stack (isAbsolute path) (parts path).reverse := by
  rw [parts, List.reverse_reverse]
  exact Stack.foldl _ .nil

theorem Stack.ne_nil {absolute : Bool} {passed : List (List Char)} (h : Stack absolute passed) :
    ∀ part ∈ passed, part ≠ [] := by
  induction h with
  | nil => simp
  | up _ _ _ ih => simpa using ih
  | down hpart _ ih => simpa using ⟨hpart.1, ih⟩

/-- Walking along a written stack builds it again: `split_join` and `Stack.foldl_reverse` together.
The empty stack is apart, as splitting gives it an empty component, which the walk skips. -/
theorem walk_join {absolute : Bool} {parts : List (List Char)}
    (hstack : Stack absolute parts.reverse) (hslash : ∀ part ∈ parts, '/' ∉ part) :
    (split (join parts)).foldl (step absolute) [] = parts.reverse := by
  cases parts with
  | nil => rfl
  | cons first rest =>
    rw [split_join (by simp) hslash, ← List.reverse_reverse (first :: rest)]
    rw [hstack.foldl_reverse, List.reverse_reverse]

/-- What is written for components does not start with a slash, so a relative path stays
relative. -/
theorem isAbsolute_join {parts : List (List Char)} (hempty : ∀ part ∈ parts, part ≠ [])
    (hslash : ∀ part ∈ parts, '/' ∉ part) : isAbsolute (join parts) = false := by
  -- Only a first component with a slash at its start could make the path absolute.
  have hfirst : ∀ (first : List Char) (rest : List Char), first ≠ [] → '/' ∉ first →
      isAbsolute (first ++ rest) = false := by
    intro first rest hne hmem
    cases first with
    | nil => exact absurd rfl hne
    | cons c first =>
      have hc : c ≠ '/' := fun e => hmem (e ▸ List.mem_cons_self)
      unfold isAbsolute
      split
      · rename_i heq
        exact absurd (List.cons.inj heq).1 hc
      · rfl
  cases parts with
  | nil => rfl
  | cons first rest =>
    cases rest with
    | nil => simpa [join] using hfirst first [] (hempty _ (by simp)) (hslash _ (by simp))
    | cons next rest => exact hfirst first _ (hempty _ (by simp)) (hslash _ (by simp))

theorem unify_of_not_mem {path : List Char} (h : '\\' ∉ path) : unify path = path := by
  refine (List.map_congr_left fun c hc => ?_).trans (List.map_id path)
  have hne : c ≠ '\\' := fun e => h (e ▸ hc)
  simp [unifyChar, hne]

theorem not_mem_unify (path : List Char) : '\\' ∉ unify path := by
  intro h
  obtain ⟨c, -, hc⟩ := List.mem_map.mp h
  unfold unifyChar at hc
  split at hc
  · exact absurd hc (by decide)
  · rename_i hne
    exact hne hc

/-- **Normalising twice is normalising once.** The normal form is written from a stack, and reading
it gives the same stack. An absolute path has a slash in front, which splits off an empty component
that is skipped. -/
theorem normaliseChars_normaliseChars (path : List Char) :
    normaliseChars (normaliseChars path) = normaliseChars path := by
  have hstack := parts_stack (unify path)
  have hslash : ∀ part ∈ parts (unify path), '/' ∉ part :=
    fun part hpart hc => (mem_parts hpart hc).2 rfl
  -- Nothing is left to unify: the components come from a path without backslashes.
  have hbackslash : '\\' ∉ join (parts (unify path)) := by
    intro h
    rcases mem_join h with h | ⟨part, hpart, hc⟩
    · exact absurd h (by decide)
    · exact not_mem_unify path (mem_parts hpart hc).1
  have hempty : ∀ part ∈ parts (unify path), part ≠ [] :=
    fun part hpart => hstack.ne_nil part (List.mem_reverse.mpr hpart)
  cases habsolute : isAbsolute (unify path) with
  | true =>
    have hout : normaliseChars path = '/' :: join (parts (unify path)) := by
      simp [normaliseChars, habsolute]
    have hunify : unify ('/' :: join (parts (unify path))) = '/' :: join (parts (unify path)) :=
      unify_of_not_mem (by simpa using hbackslash)
    have hparts : parts ('/' :: join (parts (unify path))) = parts (unify path) := by
      rw [habsolute] at hstack
      -- The slash in front splits off an empty component, and the walk skips it.
      have hsplit : split ('/' :: join (parts (unify path))) =
          [] :: split (join (parts (unify path))) := by simp [split]
      rw [parts, hsplit, List.foldl_cons]
      exact (congrArg List.reverse (walk_join hstack hslash)).trans (List.reverse_reverse _)
    rw [hout, normaliseChars, hunify, hparts]
    rfl
  | false =>
    have hout : normaliseChars path = join (parts (unify path)) := by
      simp [normaliseChars, habsolute]
    have hrelative := isAbsolute_join hempty hslash
    have hparts : parts (join (parts (unify path))) = parts (unify path) := by
      rw [habsolute] at hstack
      rw [parts, hrelative]
      exact (congrArg List.reverse (walk_join hstack hslash)).trans (List.reverse_reverse _)
    rw [hout, normaliseChars, unify_of_not_mem hbackslash, hparts, hrelative]
    rfl

theorem normalise_normalise (path : String) : normalise (normalise path) = normalise path := by
  rw [normalise, normalise, String.toList_ofList, normaliseChars_normaliseChars]

/-- A path that a document writes is resolved to a normalised one. In all three cases of resolving,
normalising is the last thing that is done. -/
theorem normalise_resolve (document path : String) :
    normalise (resolve document path) = resolve document path := by
  have hresolved : ∃ whole, resolveChars document.toList path.toList = normaliseChars whole := by
    unfold resolveChars
    split
    · exact ⟨_, rfl⟩
    · split
      · exact ⟨_, rfl⟩
      · exact ⟨_, rfl⟩
  obtain ⟨whole, hwhole⟩ := hresolved
  rw [resolve, hwhole, normalise, String.toList_ofList, normaliseChars_normaliseChars]

/-- From no document, a path is resolved by normalising it. -/
theorem resolve_empty (path : String) : resolve "" path = normalise path := by
  have hfolder : folder? (unify "".toList) = none := rfl
  rw [resolve, normalise, resolveChars, hfolder]
  split <;> rfl

end Cuesheet.Path
