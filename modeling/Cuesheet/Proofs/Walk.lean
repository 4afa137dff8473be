import Cuesheet.Proofs.Path
import Mathlib.Data.List.Induction

/-!
# What a path means

A path is an instruction for walking through directories: a name leads down, `..` leads up, though
not out of the root, and a separator in front leads to the root first. `Directory.walk` says where a
path leads from a directory, without any rewriting of the path.

Normalising keeps the walk (`walk_normalise`): every step that a component makes on the stack of
components is the step that it makes in the tree. It also leaves nothing to tell apart: a normalised
path climbs some levels and then descends along some names, and both can be read off where it leads
to from deep directories (`equivalent_iff`). So documents, which are kept under normalised paths,
are found by what a path means and not by how it is written.
-/

set_option autoImplicit false

namespace Cuesheet

namespace Path

/-! ## Directories -/

def isSeparator (c : Char) : Bool := c == '/' || c == '\\'

/-- A component has no separator in it. -/
def Plain (part : List Char) : Prop := ∀ c ∈ part, isSeparator c = false

instance (part : List Char) : Decidable (Plain part) :=
  List.decidableBAll (fun c => isSeparator c = false) part

instance (part : List Char) : Decidable (Ordinary part) := inferInstanceAs (Decidable (_ ∧ _ ∧ _))

/-- A component that leads down. -/
def IsName (part : List Char) : Prop := Ordinary part ∧ Plain part

instance (part : List Char) : Decidable (IsName part) := inferInstanceAs (Decidable (_ ∧ _))

/-- A directory, or a document in one: the names on the way to it from the root, last one first. -/
structure Directory where
  names : List (List Char)
  valid : ∀ name ∈ names, IsName name
  deriving DecidableEq

namespace Directory

def root : Directory := ⟨[], by simp⟩

/-- The directory above. The root is above itself. -/
def parent (directory : Directory) : Directory :=
  ⟨directory.names.tail, fun name h => directory.valid name (List.mem_of_mem_tail h)⟩

def child (directory : Directory) (name : List Char) (h : IsName name) : Directory :=
  ⟨name :: directory.names, List.forall_mem_cons.mpr ⟨h, directory.valid⟩⟩

/-- Where one component leads. What neither leads up nor has a name, `.` and the empty component,
leads nowhere. -/
def step (directory : Directory) (part : List Char) : Directory :=
  if part = ['.', '.'] then directory.parent
  else if h : IsName part then directory.child part h
  else directory

def follow (directory : Directory) (parts : List (List Char)) : Directory :=
  parts.foldl step directory

end Directory

/-- The components of a path, between separators of either kind. -/
def components (path : List Char) : List (List Char) := path.splitOnP isSeparator

/-- The path has a separator in front, so it starts at the root. -/
def isRooted (path : List Char) : Bool := path.head?.any isSeparator

/-- Where a walk along the path begins. -/
def Directory.start (directory : Directory) (path : List Char) : Directory :=
  if isRooted path then root else directory

def Directory.walkChars (directory : Directory) (path : List Char) : Directory :=
  (directory.start path).follow (components path)

/-- Where a path leads from a directory. -/
def Directory.walk (directory : Directory) (path : String) : Directory :=
  directory.walkChars path.toList

/-- Two paths lead to the same place, wherever one starts. -/
def Equivalent (p q : String) : Prop := ∀ directory : Directory, directory.walk p = directory.walk q

namespace Directory

theorem step_up (directory : Directory) : directory.step ['.', '.'] = directory.parent := if_pos rfl

theorem step_name (directory : Directory) {name : List Char} (h : IsName name) :
    directory.step name = directory.child name h := by
  unfold step
  rw [if_neg h.1.2.2, dif_pos h]

/-- The empty component comes from two separators in a row, or from one at either end. -/
theorem step_skip (directory : Directory) {part : List Char} (h : part = [] ∨ part = ['.']) :
    directory.step part = directory := by
  unfold step
  rw [if_neg, dif_neg]
  · rintro ⟨⟨hempty, hdot, -⟩, -⟩
    exact h.elim hempty hdot
  · rcases h with rfl | rfl <;> decide

@[simp] theorem names_parent (directory : Directory) :
    directory.parent.names = directory.names.tail := rfl

@[simp] theorem names_child (directory : Directory) {name : List Char} (h : IsName name) :
    (directory.child name h).names = name :: directory.names := rfl

@[simp] theorem parent_child (directory : Directory) {name : List Char} (h : IsName name) :
    (directory.child name h).parent = directory := rfl

@[simp] theorem follow_nil (directory : Directory) : directory.follow [] = directory := rfl

theorem follow_cons (directory : Directory) (part : List Char) (parts : List (List Char)) :
    directory.follow (part :: parts) = (directory.step part).follow parts := rfl

theorem follow_append (directory : Directory) (parts others : List (List Char)) :
    directory.follow (parts ++ others) = (directory.follow parts).follow others :=
  List.foldl_append

theorem follow_concat (directory : Directory) (parts : List (List Char)) (part : List Char) :
    directory.follow (parts ++ [part]) = (directory.follow parts).step part :=
  directory.follow_append parts [part]

theorem start_of_isRooted (directory : Directory) {path : List Char} (h : isRooted path = true) :
    directory.start path = root := if_pos h

theorem start_of_not_isRooted (directory : Directory) {path : List Char}
    (h : isRooted path = false) : directory.start path = directory := if_neg (by simp [h])

end Directory

/-! ## Components -/

theorem components_ne_nil (path : List Char) : components path ≠ [] := List.splitOnP_ne_nil _ _

theorem components_cons (c : Char) (path : List Char) :
    components (c :: path) =
      if isSeparator c then [] :: components path else (components path).modifyHead (c :: ·) :=
  List.splitOnP_cons_eq_if_modifyHead c path

theorem unifyChar_of_separator {c : Char} (h : isSeparator c = true) : unifyChar c = '/' := by
  unfold unifyChar
  split
  · rfl
  · rename_i hne
    simpa [isSeparator, hne] using h

theorem unifyChar_of_not_separator {c : Char} (h : isSeparator c = false) :
    unifyChar c = c ∧ c ≠ '/' := by
  simp only [isSeparator, Bool.or_eq_false_iff, beq_eq_false_iff_ne] at h
  exact ⟨if_neg h.2, h.1⟩

theorem unify_cons (c : Char) (path : List Char) : unify (c :: path) = unifyChar c :: unify path :=
  rfl

/-- **Reading backslashes as slashes and splitting at slashes is splitting at both.** This ties the
components of the model to those of the walk. -/
theorem split_unify (path : List Char) : split (unify path) = components path := by
  induction path with
  | nil => rfl
  | cons c rest ih =>
    rw [components_cons, ← ih, unify_cons, split]
    cases hc : isSeparator c with
    | true => simp [unifyChar_of_separator hc]
    | false =>
      obtain ⟨hsame, hslash⟩ := unifyChar_of_not_separator hc
      rw [hsame, if_neg hslash, if_neg (by simp)]
      cases hrest : split (unify rest) with
      | nil => exact absurd (ih.symm.trans hrest) (components_ne_nil rest)
      | cons part parts => rfl

/-- A backslash in front makes a path absolute too. -/
theorem isAbsolute_unify (path : List Char) : isAbsolute (unify path) = isRooted path := by
  cases path with
  | nil => rfl
  | cons c rest =>
    rw [unify_cons]
    cases hc : isSeparator c with
    | true => simp [unifyChar_of_separator hc, isAbsolute, isRooted, hc]
    | false =>
      obtain ⟨hsame, hslash⟩ := unifyChar_of_not_separator hc
      rw [hsame]
      simp [isAbsolute, isRooted, hc, hslash]

theorem plain_of_not_mem {part : List Char} (hslash : '/' ∉ part) (hbackslash : '\\' ∉ part) :
    Plain part := by
  intro c hc
  have hne : c ≠ '/' := fun e => hslash (e ▸ hc)
  have hne' : c ≠ '\\' := fun e => hbackslash (e ▸ hc)
  simp [isSeparator, hne, hne']

theorem plain_of_mem_components {path part : List Char} (h : part ∈ components path) :
    Plain part := by
  rw [← split_unify] at h
  exact plain_of_not_mem (fun hc => (mem_split h hc).2 rfl)
    fun hc => not_mem_unify path (mem_split h hc).1

theorem plain_of_mem_parts {path part : List Char} (h : part ∈ parts (unify path)) : Plain part :=
  plain_of_not_mem (fun hc => (mem_parts h hc).2 rfl)
    fun hc => not_mem_unify path (mem_parts h hc).1

/-! ## Normalising keeps the walk -/

/-- One step: a component changes the stack as it changes the place where the stack leads. The case
to look at is `..`. It takes a name off the stack, and the walk goes down and up again; on an empty
absolute stack it does nothing, and the walk stays at the root; otherwise it is put on the stack,
and the walk goes up when it gets there. -/
theorem Stack.follow_step {absolute : Bool} {passed : List (List Char)}
    (hstack : Stack absolute passed) (hplain : ∀ part ∈ passed, Plain part) {start : Directory}
    (hstart : absolute = true → start = .root) {part : List Char} (hpart : Plain part) :
    start.follow (Path.step absolute passed part).reverse =
      (start.follow passed.reverse).step part := by
  by_cases hskip : part = [] ∨ part = ['.']
  · have hstep : Path.step absolute passed part = passed := if_pos hskip
    rw [Directory.step_skip _ hskip, hstep]
  · by_cases hup : part = ['.', '.']
    · subst hup
      -- Up from a stack: what happens depends on what lies on top of it.
      cases hstack with
      | nil =>
        cases absolute with
        | true => rw [hstart rfl]; rfl
        | false => rfl
      | up habsolute hpassed h =>
        subst habsolute
        rw [Path.step_up (by simpa using hpassed), List.reverse_cons, Directory.follow_concat]
      | @down last before hlast h =>
        have hname : IsName last := ⟨hlast, hplain last (by simp)⟩
        have hstep : Path.step absolute (last :: before) ['.', '.'] = before := by
          simp [Path.step, hlast.2.2]
        rw [hstep, List.reverse_cons, Directory.follow_concat, Directory.step_name _ hname,
          Directory.step_up, Directory.parent_child]
    · have hordinary : Ordinary part := ⟨fun e => hskip (.inl e), fun e => hskip (.inr e), hup⟩
      rw [step_ordinary hordinary, List.reverse_cons, Directory.follow_concat]

/-- A whole walk: the stack that is built leads where all the components lead. By induction on the
components that are still to come, with the stack so far left open. -/
theorem Stack.follow_foldl {absolute : Bool} {start : Directory}
    (hstart : absolute = true → start = .root) :
    ∀ (parts : List (List Char)) {passed : List (List Char)}, Stack absolute passed →
      (∀ part ∈ passed, Plain part) → (∀ part ∈ parts, Plain part) →
      start.follow (parts.foldl (Path.step absolute) passed).reverse =
        (start.follow passed.reverse).follow parts
  | [], _, _, _, _ => rfl
  | part :: parts, passed, hstack, hpassed, hparts => by
    obtain ⟨hpart, hparts⟩ := List.forall_mem_cons.mp hparts
    have hstep : ∀ other ∈ Path.step absolute passed part, Plain other := by
      intro other hother
      rcases mem_step hother with hother | rfl
      · exact hpassed other hother
      · exact hpart
    rw [List.foldl_cons, Stack.follow_foldl hstart parts (hstack.step part) hstep hparts,
      hstack.follow_step hpassed hstart hpart, Directory.follow_cons]

/-- A path leads where its normalised components lead. The two lists of components differ, as names
that are taken back are missing from the second. -/
theorem walkChars_eq (directory : Directory) (path : List Char) :
    directory.walkChars path = (directory.start path).follow (parts (unify path)) := by
  have hstart : isRooted path = true → directory.start path = .root := directory.start_of_isRooted
  have hplain : ∀ part ∈ components path, Plain part := fun _ => plain_of_mem_components
  have hfold := Stack.follow_foldl hstart (components path) .nil (by simp) hplain
  rw [parts, split_unify, isAbsolute_unify, hfold]
  rfl

/-! ## A normalised path tells its components -/

theorem not_mem_slash_parts {path part : List Char} (h : part ∈ parts path) : '/' ∉ part :=
  fun hc => (mem_parts h hc).2 rfl

theorem ne_nil_of_mem_parts {path part : List Char} (h : part ∈ parts path) : part ≠ [] :=
  (parts_stack path).ne_nil part (List.mem_reverse.mpr h)

theorem join_ne_nil {part : List Char} (h : part ≠ []) :
    ∀ parts : List (List Char), join (part :: parts) ≠ []
  | [] => h
  | _ :: _ => List.append_ne_nil_of_left_ne_nil h _

/-- Components that are not empty and have no slash can be read off what is written for them. -/
theorem eq_of_join_eq {first second : List (List Char)}
    (hfirst : ∀ part ∈ first, part ≠ [] ∧ '/' ∉ part)
    (hsecond : ∀ part ∈ second, part ≠ [] ∧ '/' ∉ part) (h : join first = join second) :
    first = second := by
  match first, second with
  | [], [] => rfl
  | [], part :: rest => exact absurd h.symm (join_ne_nil (hsecond part (by simp)).1 rest)
  | part :: rest, [] => exact absurd h (join_ne_nil (hfirst part (by simp)).1 rest)
  | part :: rest, other :: others =>
    rw [← split_join (List.cons_ne_nil part rest) fun x hx => (hfirst x hx).2, h]
    exact split_join (List.cons_ne_nil other others) fun x hx => (hsecond x hx).2

theorem normaliseChars_eq (path : List Char) :
    normaliseChars path =
      if isRooted path then '/' :: join (parts (unify path)) else join (parts (unify path)) := by
  rw [← isAbsolute_unify]
  rfl

theorem isAbsolute_normaliseChars (path : List Char) :
    isAbsolute (normaliseChars path) = isRooted path := by
  have hjoin : isAbsolute (join (parts (unify path))) = false :=
    isAbsolute_join (fun _ => ne_nil_of_mem_parts) fun _ => not_mem_slash_parts
  rw [normaliseChars_eq]
  cases isRooted path with
  | true => rfl
  | false => exact hjoin

/-- A normal form tells its components, and whether it is absolute. Here the two sides of
`equivalent_iff` meet: what is written, and what can be read off a walk. -/
theorem normaliseChars_eq_iff {p q : List Char} :
    normaliseChars p = normaliseChars q ↔
      isRooted p = isRooted q ∧ parts (unify p) = parts (unify q) := by
  constructor
  · intro h
    have hrooted : isRooted p = isRooted q := by
      rw [← isAbsolute_normaliseChars, h, isAbsolute_normaliseChars]
    have hjoin : join (parts (unify p)) = join (parts (unify q)) := by
      rw [normaliseChars_eq, normaliseChars_eq, hrooted] at h
      cases hq : isRooted q with
      | true => simpa [hq] using h
      | false => simpa [hq] using h
    have hparts : ∀ path : List Char, ∀ part ∈ parts path, part ≠ [] ∧ '/' ∉ part :=
      fun _ _ hpart => ⟨ne_nil_of_mem_parts hpart, not_mem_slash_parts hpart⟩
    exact ⟨hrooted, eq_of_join_eq (hparts _) (hparts _) hjoin⟩
  · rintro ⟨hrooted, hparts⟩
    rw [normaliseChars_eq, normaliseChars_eq, hrooted, hparts]

/-- Normalising twice is normalising once, so a path and its normal form have the same
components. -/
theorem walkChars_normaliseChars (directory : Directory) (path : List Char) :
    directory.walkChars (normaliseChars path) = directory.walkChars path := by
  obtain ⟨hrooted, hparts⟩ := normaliseChars_eq_iff.mp (normaliseChars_normaliseChars path)
  rw [walkChars_eq, walkChars_eq, hparts, Directory.start, Directory.start, hrooted]

/-- **Normalising a path keeps where it leads,** from every directory. The root is above itself in
the tree, and so a rooted path may climb too far and be normalised all the same. -/
theorem walk_normalise (directory : Directory) (path : String) :
    directory.walk (normalise path) = directory.walk path := by
  rw [Directory.walk, normalise, String.toList_ofList, walkChars_normaliseChars]
  rfl

/-! ## Climbing and descending -/

/-- How many levels a normalised path climbs. -/
def climb (passed : List (List Char)) : Nat := passed.count ['.', '.']

/-- The names along which it then descends. -/
def descent (passed : List (List Char)) : List (List Char) := passed.filter (· ≠ ['.', '.'])

/-- An absolute path has nowhere to climb to. -/
theorem Stack.climb_eq_zero {passed : List (List Char)} (h : Stack true passed) :
    climb passed = 0 := by
  induction passed with
  | nil => rfl
  | cons part passed ih =>
    cases h with
    | up habsolute _ _ => cases habsolute
    | down hpart h =>
      rw [climb, List.count_cons_of_ne hpart.2.2]
      exact ih h

theorem descent_eq_nil {passed : List (List Char)} (h : ∀ part ∈ passed, part = ['.', '.']) :
    descent passed = [] := by
  simpa [descent, List.filter_eq_nil_iff] using h

/-- A stack is its descent on top of its climb, and so is determined by the two. -/
theorem Stack.eq_descent_append {absolute : Bool} {passed : List (List Char)}
    (h : Stack absolute passed) :
    passed = descent passed ++ List.replicate (climb passed) ['.', '.'] := by
  induction h with
  | nil => rfl
  | @up passed _ hpassed _ _ =>
    have hall : ∀ part ∈ ['.', '.'] :: passed, part = ['.', '.'] := by simpa using hpassed
    have hcount : climb (['.', '.'] :: passed) = (['.', '.'] :: passed).length :=
      List.count_eq_length.mpr fun part hpart => (hall part hpart).symm
    rw [descent_eq_nil hall, hcount, List.nil_append]
    exact List.eq_replicate_of_mem hall
  | @down part passed hpart _ ih =>
    have hdescent : descent (part :: passed) = part :: descent passed :=
      List.filter_cons_of_pos (by simpa using hpart.2.2)
    have hclimb : climb (part :: passed) = climb passed := List.count_cons_of_ne hpart.2.2
    rw [hdescent, hclimb, List.cons_append, ← ih]

/-- Where a normalised path leads: it takes its climb off the names of the directory and puts its
descent in front. -/
theorem Stack.names_follow {absolute : Bool} {passed : List (List Char)}
    (h : Stack absolute passed) (hplain : ∀ part ∈ passed, Plain part) (directory : Directory) :
    (directory.follow passed.reverse).names =
      descent passed ++ directory.names.drop (climb passed) := by
  induction h with
  | nil => rfl
  | @up passed _ hpassed _ ih =>
    have hclimb : climb (['.', '.'] :: passed) = climb passed + 1 := List.count_cons_self
    have ih := ih fun part hpart => hplain part (List.mem_cons_of_mem _ hpart)
    rw [descent_eq_nil hpassed, List.nil_append] at ih
    rw [descent_eq_nil (by simpa using hpassed), hclimb, List.nil_append, List.reverse_cons,
      Directory.follow_concat, Directory.step_up, Directory.names_parent, ih, List.tail_drop]
  | @down part passed hpart _ ih =>
    have hdescent : descent (part :: passed) = part :: descent passed :=
      List.filter_cons_of_pos (by simpa using hpart.2.2)
    have hclimb : climb (part :: passed) = climb passed := List.count_cons_of_ne hpart.2.2
    have hname : IsName part := ⟨hpart, hplain part (by simp)⟩
    have ih := ih fun other hother => hplain other (List.mem_cons_of_mem _ hother)
    rw [hdescent, hclimb, List.reverse_cons, Directory.follow_concat,
      Directory.step_name _ hname, Directory.names_child, ih, List.cons_append]

/-- Where a path leads: along its descent, from what its climb leaves of the start. -/
theorem names_walkChars (directory : Directory) (path : List Char) :
    (directory.walkChars path).names =
      descent (parts (unify path)).reverse ++
        (directory.start path).names.drop (climb (parts (unify path)).reverse) := by
  have hplain : ∀ part ∈ (parts (unify path)).reverse, Plain part :=
    fun part hpart => plain_of_mem_parts (List.mem_reverse.mp hpart)
  have hnames := (parts_stack (unify path)).names_follow hplain (directory.start path)
  rw [List.reverse_reverse] at hnames
  rw [walkChars_eq, hnames]

/-! ## Telling paths apart -/

/-- A directory at the given depth, with one name on all levels. -/
def Directory.nested (name : List Char) (h : IsName name) (depth : Nat) : Directory :=
  ⟨List.replicate depth name, fun _ hother => List.eq_of_mem_replicate hother ▸ h⟩

theorem isName_a : IsName ['a'] := by decide

theorem isName_b : IsName ['b'] := by decide

/-- A climb and a descent can be read off where they lead to from deep directories: names that come
from the directory change with it, and those of the descent do not. -/
theorem climb_descent_unique {up up' : Nat} {down down' : List (List Char)}
    (h : ∀ directory : Directory,
      down ++ directory.names.drop up = down' ++ directory.names.drop up') :
    up = up' ∧ down = down' := by
  have ha := h (.nested ['a'] isName_a (up + up'))
  have hb := h (.nested ['b'] isName_b (up + up'))
  simp only [Directory.nested, List.drop_replicate, Nat.add_sub_cancel_left,
    Nat.add_sub_cancel_right] at ha hb
  -- Counting one of the two names tells how many come from the directory.
  have hcounta : down.count ['a'] + up' = down'.count ['a'] + up := by
    simpa using congrArg (List.count ['a']) ha
  have hcountb : down.count ['a'] = down'.count ['a'] := by
    simpa [List.count_replicate] using congrArg (List.count ['a']) hb
  have hup : up = up' := by omega
  subst hup
  exact ⟨rfl, List.append_cancel_right ha⟩

/-- What a rooted path leads to does not depend on the start, and for any other path it does. -/
theorem isRooted_of_walkChars_eq {p q : List Char}
    (h : ∀ directory : Directory, directory.walkChars p = directory.walkChars q)
    (hp : isRooted p = true) : isRooted q = true := by
  by_contra hnot
  have hq : isRooted q = false := by simpa using hnot
  have hnames : ∀ directory : Directory, directory.names.drop (climb (parts (unify q)).reverse) =
      Directory.root.names.drop (climb (parts (unify q)).reverse) := by
    intro directory
    have hsame : (directory.walkChars q).names = (Directory.root.walkChars q).names := by
      rw [← h, ← h, Directory.walkChars, Directory.walkChars, Directory.start_of_isRooted _ hp,
        Directory.start_of_isRooted _ hp]
    rw [names_walkChars, names_walkChars, Directory.start_of_not_isRooted _ hq,
      Directory.start_of_not_isRooted _ hq] at hsame
    exact List.append_cancel_left hsame
  have hdeep := congrArg List.length
    (hnames (.nested ['a'] isName_a (climb (parts (unify q)).reverse + 1)))
  simp [Directory.nested, Directory.root] at hdeep

/-- Paths that lead to the same places have the same components. For rooted paths one start is
enough, as there is no climb; for the others deep directories show the climb. -/
theorem parts_unify_eq {p q : List Char}
    (h : ∀ directory : Directory, directory.walkChars p = directory.walkChars q)
    (hrooted : isRooted p = isRooted q) : parts (unify p) = parts (unify q) := by
  have hp := parts_stack (unify p)
  have hq := parts_stack (unify q)
  have hunique : climb (parts (unify p)).reverse = climb (parts (unify q)).reverse ∧
      descent (parts (unify p)).reverse = descent (parts (unify q)).reverse := by
    cases hcase : isRooted q with
    | true =>
      rw [isAbsolute_unify, hrooted, hcase] at hp
      rw [isAbsolute_unify, hcase] at hq
      -- From the root, a rooted path shows its whole descent.
      have hroot := congrArg Directory.names (h .root)
      rw [names_walkChars, names_walkChars, hp.climb_eq_zero, hq.climb_eq_zero,
        Directory.start_of_isRooted _ hcase,
        Directory.start_of_isRooted _ (hrooted.trans hcase)] at hroot
      exact ⟨hp.climb_eq_zero.trans hq.climb_eq_zero.symm, List.append_cancel_right hroot⟩
    | false =>
      refine climb_descent_unique fun directory => ?_
      have hnames := congrArg Directory.names (h directory)
      rw [names_walkChars, names_walkChars, Directory.start_of_not_isRooted _ hcase,
        Directory.start_of_not_isRooted _ (hrooted.trans hcase)] at hnames
      exact hnames
  refine List.reverse_injective ?_
  rw [hp.eq_descent_append, hq.eq_descent_append, hunique.1, hunique.2]

theorem normaliseChars_eq_iff_walkChars {p q : List Char} :
    normaliseChars p = normaliseChars q ↔
      ∀ directory : Directory, directory.walkChars p = directory.walkChars q := by
  constructor
  · intro h directory
    rw [← walkChars_normaliseChars, h, walkChars_normaliseChars]
  · intro h
    have hrooted : isRooted p = isRooted q := Bool.eq_iff_iff.mpr
      ⟨isRooted_of_walkChars_eq h, isRooted_of_walkChars_eq fun directory => (h directory).symm⟩
    exact normaliseChars_eq_iff.mpr ⟨hrooted, parts_unify_eq h hrooted⟩

/-- **Normal forms decide equivalence**, of rooted paths and of others. Equivalence speaks of all
directories, and here it becomes a comparison of two strings. -/
theorem equivalent_iff {p q : String} : Equivalent p q ↔ normalise p = normalise q := by
  rw [normalise, normalise, String.ofList_inj, normaliseChars_eq_iff_walkChars]
  rfl

instance (p q : String) : Decidable (Equivalent p q) := decidable_of_iff _ equivalent_iff.symm

end Path

/-! ## Documents -/

namespace Documents

/-- One insertion: it is found under every path that leads to it, and nothing else changes. -/
theorem resolve?_insert (documents : Documents) (path other : String) (library : Library) :
    (documents.insert path library).resolve? other =
      if Path.Equivalent path other then some library else documents.resolve? other := by
  unfold insert resolve?
  by_cases h : Path.Equivalent path other
  · rw [if_pos h, Path.equivalent_iff.mp h, Dict.get?_set]
  · rw [if_neg h, Dict.get?_set_of_ne]
    exact fun e => h (Path.equivalent_iff.mpr e.symm)

/-- After all insertions, a path finds the last library that was put where it leads. -/
theorem resolve?_ofList (libraries : List (String × Library)) (path : String) :
    (ofList libraries).resolve? path =
      (libraries.filter fun entry => Path.Equivalent entry.1 path).getLast?.map (·.2) := by
  induction libraries using List.reverseRecOn with
  | nil => rfl
  | append_singleton libraries entry ih =>
    have hstep : ofList (libraries ++ [entry]) = (ofList libraries).insert entry.1 entry.2 := by
      rw [ofList, List.foldl_append]
      rfl
    rw [hstep, resolve?_insert, ih, List.filter_append]
    by_cases h : Path.Equivalent entry.1 path
    · simp [h]
    · simp [h]

end Documents

/-- **Normalising decides what paths mean.** A normalised path leads where the path leads,
normalising again changes nothing, and two paths have one normal form exactly if they lead to the
same place from every directory. So a set of documents answers for a path with the last library that
was inserted under an equivalent one. -/
theorem Path.normalise_decides :
    (∀ (directory : Directory) (path : String),
      directory.walk (normalise path) = directory.walk path) ∧
    (∀ path : String, normalise (normalise path) = normalise path) ∧
    (∀ p q : String, normalise p = normalise q ↔
      ∀ directory : Directory, directory.walk p = directory.walk q) ∧
    ∀ (libraries : List (String × Library)) (path : String),
      (Documents.ofList libraries).resolve? path =
        (libraries.filter fun entry => Equivalent entry.1 path).getLast?.map (·.2) :=
  ⟨walk_normalise, normalise_normalise, fun _ _ => equivalent_iff.symm, Documents.resolve?_ofList⟩

end Cuesheet
