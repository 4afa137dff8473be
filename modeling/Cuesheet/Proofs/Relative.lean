import Cuesheet.Proofs.Walk

/-!
# Paths that documents write

A path that a document writes is read from the folder of that document, or from the root if it
starts with a slash. Resolving cuts the last component off the path of the document, puts the
written path in its place and normalises. In the tree, that is to go to the document, one level up,
and along the written path (`walk_resolve`). What comes out is normal, so it depends on nothing else
of the document's path than where that path leads (`resolve_normalise`).

A backslash in front of a written path is the one place where the two separators differ: it is not
taken for a start at the root before the folder is put in front
(`normaliseChars_eq_resolveChars_iff`).
-/

set_option autoImplicit false

namespace Cuesheet.Path

/-! ## The last component and the folder -/

def lastComponent (path : List Char) : List Char :=
  (components path).getLast (components_ne_nil path)

/-- The folder of the document that a path leads to from `directory`. -/
def Directory.folder (directory : Directory) (document : List Char) : Directory :=
  (directory.start document).follow (components document).dropLast

theorem dropLast_append_lastComponent (path : List Char) :
    (components path).dropLast ++ [lastComponent path] = components path :=
  List.dropLast_append_getLast (components_ne_nil path)

theorem lastComponent_of_concat {path name : List Char} {front : List (List Char)}
    (h : components path = front ++ [name]) : lastComponent path = name := by
  simp [lastComponent, h]

/-- If a path ends in a name, the folder is one level above where the path leads. If it ends in `..`
or in nothing it is not: cutting off the last component then does not take back its step. -/
theorem parent_walkChars {document : List Char} (h : Ordinary (lastComponent document))
    (directory : Directory) :
    (directory.walkChars document).parent = directory.folder document := by
  have hname : IsName (lastComponent document) :=
    ⟨h, plain_of_mem_components (List.getLast_mem (components_ne_nil document))⟩
  rw [Directory.walkChars, ← dropLast_append_lastComponent document, Directory.follow_concat,
    Directory.step_name _ hname, Directory.parent_child]
  rfl

theorem components_append_separator (front back : List Char) {c : Char}
    (hc : isSeparator c = true) :
    components (front ++ c :: back) = components front ++ components back :=
  List.splitOnP_append_cons front back hc

/-- What is written for components has these components, if none of them has a separator in it. -/
theorem components_join {parts : List (List Char)} (hparts : parts ≠ [])
    (hplain : ∀ part ∈ parts, Plain part) : components (join parts) = parts := by
  have hbackslash : '\\' ∉ join parts := by
    intro h
    rcases mem_join h with h | ⟨part, hpart, hc⟩
    · exact absurd h (by decide)
    · exact absurd (hplain part hpart _ hc) (by decide)
  rw [← split_unify, unify_of_not_mem hbackslash]
  exact split_join hparts fun part hpart hc => absurd (hplain part hpart _ hc) (by decide)

/-- Only a path with a separator has a folder. -/
theorem dropLast_components_eq_nil_iff {path : List Char} :
    (components path).dropLast = [] ↔ Plain path := by
  constructor
  · intro h c hc
    by_contra hseparator
    obtain ⟨front, back, rfl⟩ := List.append_of_mem hc
    rw [components_append_separator _ _ (by simpa using hseparator),
      List.dropLast_append_of_ne_nil (components_ne_nil back), List.append_eq_nil_iff] at h
    exact components_ne_nil front h.1
  · intro h
    rw [components, List.splitOnP_eq_singleton h]
    rfl

/-- A path with more than one component is rooted if the first one is empty. So a folder that is
written from components is rooted like the path that they come from. -/
theorem isRooted_of_components {path part : List Char} {rest : List (List Char)}
    (h : components path = part :: rest) (hrest : rest ≠ []) :
    isRooted path = decide (part = []) := by
  cases path with
  | nil =>
    cases h
    exact absurd rfl hrest
  -- Whether the first component is empty can be seen at the first character.
  | cons c path =>
    rw [components_cons] at h
    cases hc : isSeparator c with
    | true =>
      rw [hc, if_pos rfl] at h
      obtain ⟨rfl, -⟩ := List.cons.inj h
      simp [isRooted, hc]
    | false =>
      rw [hc, if_neg (by simp)] at h
      cases hpath : components path with
      | nil => exact absurd hpath (components_ne_nil path)
      | cons first others =>
        rw [hpath, List.modifyHead_cons] at h
        obtain ⟨rfl, -⟩ := List.cons.inj h
        simp [isRooted, hc]

theorem isRooted_of_plain {path : List Char} (h : Plain path) : isRooted path = false := by
  cases path with
  | nil => rfl
  | cons c path => simpa [isRooted] using h c List.mem_cons_self

/-! ## Resolving -/

theorem isAbsolute_iff {path : List Char} : isAbsolute path = true ↔ path.head? = some '/' := by
  cases path with
  | nil => simp [isAbsolute]
  | cons c path =>
    unfold isAbsolute
    split
    · rename_i heq
      simp [(List.cons.inj heq).1]
    · rename_i hne
      simpa using fun e => hne path (by rw [e])

theorem isRooted_iff {path : List Char} :
    isRooted path = true ↔ path.head? = some '/' ∨ path.head? = some '\\' := by
  cases path with
  | nil => simp [isRooted]
  | cons c path => simp [isRooted, isSeparator]

/-- Written paths are asked only for a slash, and normalising takes backslashes as well. The two
agree unless there is a backslash in front. -/
theorem isRooted_eq_isAbsolute {path : List Char} (h : path.head? ≠ some '\\') :
    isRooted path = isAbsolute path := by
  rw [Bool.eq_iff_iff, isRooted_iff, isAbsolute_iff, or_iff_left h]

theorem folder?_unify (document : List Char) :
    folder? (unify document) =
      if Plain document then none else some (join (components document).dropLast) := by
  have hdecided : folder? (unify document) =
      if (components document).dropLast = [] then none
      else some (join (components document).dropLast) := by
    unfold folder?
    rw [split_unify]
    match components document with
    | [] => rfl
    | [_] => rfl
    | _ :: _ :: _ => rfl
  simp only [hdecided, dropLast_components_eq_nil_iff]

/-- The three cases of resolving: an absolute path, a document without a folder, and all others. -/
theorem resolveChars_of_isAbsolute {path : List Char} (hpath : isAbsolute path = true)
    (document : List Char) : resolveChars document path = normaliseChars path := if_pos hpath

theorem resolveChars_of_plain {document : List Char} (hdocument : Plain document)
    (path : List Char) : resolveChars document path = normaliseChars path := by
  unfold resolveChars
  rw [folder?_unify, if_pos hdocument, ite_self]

theorem resolveChars_of_not_plain {document path : List Char} (hdocument : ¬ Plain document)
    (hpath : isAbsolute path = false) :
    resolveChars document path =
      normaliseChars (join (components document).dropLast ++ '/' :: path) := by
  unfold resolveChars
  rw [folder?_unify, if_neg hdocument, if_neg (by simp [hpath])]

section Beneath

variable {document : List Char} (hdocument : ¬ Plain document) (path : List Char)

include hdocument

/-- The written path is put behind the folder, so its components come behind those of the folder. -/
theorem components_beneath :
    components (join (components document).dropLast ++ '/' :: path) =
      (components document).dropLast ++ components path := by
  rw [components_append_separator _ _ rfl,
    components_join (mt dropLast_components_eq_nil_iff.mp hdocument)]
  exact fun part hpart => plain_of_mem_components (List.dropLast_subset _ hpart)

/-- A written path is looked for where the document is, under the root or beneath the start. -/
theorem isRooted_beneath :
    isRooted (join (components document).dropLast ++ '/' :: path) = isRooted document := by
  have hbeneath := components_beneath hdocument path
  have hcomponents := (dropLast_append_lastComponent document).symm
  cases hfront : (components document).dropLast with
  | nil => exact absurd (dropLast_components_eq_nil_iff.mp hfront) hdocument
  | cons part rest =>
    rw [hfront] at hbeneath hcomponents
    rw [isRooted_of_components hbeneath (by simp [components_ne_nil]),
      isRooted_of_components hcomponents (by simp)]

/-- A document with a folder: what it writes leads on from that folder, with a backslash in front of
it as well as without. -/
theorem walkChars_resolveChars_beneath (hpath : isAbsolute path = false) (directory : Directory) :
    directory.walkChars (resolveChars document path) =
      (directory.folder document).follow (components path) := by
  rw [resolveChars_of_not_plain hdocument hpath, walkChars_normaliseChars, Directory.walkChars,
    components_beneath hdocument, Directory.follow_append, Directory.start,
    isRooted_beneath hdocument]
  rfl

end Beneath

/-- A path without a separator in front leads on from the folder of the document, which is the start
itself if the document has none. -/
theorem walkChars_resolveChars {path : List Char} (hpath : isRooted path = false)
    (document : List Char) (directory : Directory) :
    directory.walkChars (resolveChars document path) =
      (directory.folder document).walkChars path := by
  have hrelative : isAbsolute path = false := by
    rw [Bool.eq_false_iff] at hpath ⊢
    exact fun h => hpath (isRooted_iff.mpr (.inl (isAbsolute_iff.mp h)))
  by_cases hdocument : Plain document
  · have hfolder : directory.folder document = directory := by
      rw [Directory.folder, dropLast_components_eq_nil_iff.mpr hdocument, Directory.follow_nil,
        Directory.start_of_not_isRooted _ (isRooted_of_plain hdocument)]
    rw [resolveChars_of_plain hdocument, walkChars_normaliseChars, hfolder]
  · rw [walkChars_resolveChars_beneath hdocument path hrelative, Directory.walkChars,
      Directory.start_of_not_isRooted _ hpath]

/-- **Where a written path leads**: from the root along it if it starts with a slash, and else to
the document, one level up, and along it. -/
theorem walk_resolve {document path : String} (hname : Ordinary (lastComponent document.toList))
    (hpath : path.toList.head? ≠ some '\\') (directory : Directory) :
    directory.walk (resolve document path) =
      if path.toList.head? = some '/' then Directory.root.walk path
      else (directory.walk document).parent.walk path := by
  rw [Directory.walk, resolve, String.toList_ofList]
  split
  · rename_i hslash
    have hrooted : isRooted path.toList = true := isRooted_iff.mpr (.inl hslash)
    rw [resolveChars_of_isAbsolute (isAbsolute_iff.mpr hslash), walkChars_normaliseChars,
      Directory.walk, Directory.walkChars, Directory.walkChars,
      Directory.start_of_isRooted _ hrooted, Directory.start_of_isRooted _ hrooted]
  · rename_i hslash
    have hrooted : isRooted path.toList = false := by
      rw [Bool.eq_false_iff]
      exact fun h => (isRooted_iff.mp h).elim hslash hpath
    rw [walkChars_resolveChars hrooted, Directory.walk, Directory.walk, parent_walkChars hname]

/-! ## The path of the document -/

theorem lastComponent_normaliseChars {path : List Char} (h : Ordinary (lastComponent path)) :
    lastComponent (normaliseChars path) = lastComponent path := by
  -- The last step of the walk puts the name on the stack, and nothing takes it off again.
  have hparts : ∃ front, parts (unify path) = front ++ [lastComponent path] := by
    rw [parts, split_unify, ← dropLast_append_lastComponent path, List.foldl_append,
      List.foldl_cons, List.foldl_nil, step_ordinary h, List.reverse_cons]
    exact ⟨_, rfl⟩
  obtain ⟨front, hfront⟩ := hparts
  have hjoin : components (join (parts (unify path))) = front ++ [lastComponent path] := by
    rw [components_join (by simp [hfront]) fun _ => plain_of_mem_parts, hfront]
  rw [normaliseChars_eq]
  split
  · have hslash : components ('/' :: join (parts (unify path))) =
        ([] :: front) ++ [lastComponent path] := by
      rw [components_cons, hjoin]
      rfl
    exact lastComponent_of_concat hslash
  · exact lastComponent_of_concat hjoin

/-- What is resolved depends only on where the path of the document leads. Both sides are normal and
lead to the same place, and so they are equal (`equivalent_iff`). -/
theorem resolve_normalise {document path : String}
    (hname : Ordinary (lastComponent document.toList)) (hpath : path.toList.head? ≠ some '\\') :
    resolve (normalise document) path = resolve document path := by
  have hnormal : Ordinary (lastComponent (normalise document).toList) := by
    rw [normalise, String.toList_ofList, lastComponent_normaliseChars hname]
    exact hname
  have hequivalent : Equivalent (resolve (normalise document) path) (resolve document path) := by
    intro directory
    rw [walk_resolve hnormal hpath, walk_resolve hname hpath, walk_normalise]
  calc resolve (normalise document) path
      = normalise (resolve (normalise document) path) := (normalise_resolve _ _).symm
    _ = normalise (resolve document path) := equivalent_iff.mp hequivalent
    _ = resolve document path := normalise_resolve _ _

/-- **A written path is resolved to where it leads.** If the path of the document ends in a name,
and no backslash stands in front of the written path, the resolved path is normal, any other way to
write the path of the document gives the same one, and it leads from the folder of the document
along the written path, or from the root if that starts with a slash. -/
theorem resolve_located {document path : String} (hname : Ordinary (lastComponent document.toList))
    (hpath : path.toList.head? ≠ some '\\') :
    normalise (resolve document path) = resolve document path ∧
      resolve document path = resolve (normalise document) path ∧
      ∀ directory : Directory, directory.walk (resolve document path) =
        if path.toList.head? = some '/' then Directory.root.walk path
        else (directory.walk document).parent.walk path :=
  ⟨normalise_resolve document path, (resolve_normalise hname hpath).symm, walk_resolve hname hpath⟩

/-- The path of a document that leads down and up again before it leaves its start. -/
def prologue : String := "acts\\..\\../shows//prologue"

theorem resolve_located_prologue :
    Ordinary (lastComponent prologue.toList) ∧ resolve prologue "../lights" = "../lights" ∧
      resolve prologue "../lights" = resolve (normalise prologue) "../lights" ∧
      ∀ directory : Directory, directory.walk (resolve prologue "../lights") =
        (directory.walk prologue).parent.walk "../lights" := by
  have hname : Ordinary (lastComponent prologue.toList) := by decide
  have hpath : "../lights".toList.head? ≠ some '\\' := by decide
  obtain ⟨-, hsame, hwalk⟩ := resolve_located hname hpath
  exact ⟨hname, by decide +kernel, hsame, hwalk⟩

/-! ## Slashes and backslashes -/

/-- The path with slashes in place of backslashes. -/
def slashed (path : String) : String := String.ofList (unify path.toList)

theorem unify_unify (path : List Char) : unify (unify path) = unify path :=
  unify_of_not_mem (not_mem_unify path)

theorem unify_append (front back : List Char) : unify (front ++ back) = unify front ++ unify back :=
  List.map_append

theorem normaliseChars_congr {p q : List Char} (h : unify p = unify q) :
    normaliseChars p = normaliseChars q := by
  unfold normaliseChars
  rw [h]

/-- Without a backslash in front of the written path, both separators do the same. -/
theorem resolveChars_unify {document path : List Char} (hpath : path.head? ≠ some '\\') :
    resolveChars (unify document) (unify path) = resolveChars document path := by
  have habsolute : isAbsolute (unify path) = isAbsolute path := by
    rw [isAbsolute_unify, isRooted_eq_isAbsolute hpath]
  have hpaths : normaliseChars (unify path) = normaliseChars path :=
    normaliseChars_congr (unify_unify path)
  unfold resolveChars
  rw [habsolute, unify_unify, hpaths]
  cases folder? (unify document) with
  | none => rfl
  | some folder =>
    have hbeneath : unify (folder ++ '/' :: unify path) = unify (folder ++ '/' :: path) := by
      rw [unify_append, unify_append, unify_cons, unify_cons, unify_unify]
    simp only [normaliseChars_congr hbeneath]

/-- With one, the slashed path starts at the root. -/
theorem resolveChars_unify_of_backslash {path : List Char} (hpath : path.head? = some '\\')
    (document : List Char) : resolveChars (unify document) (unify path) = normaliseChars path := by
  have habsolute : isAbsolute (unify path) = true := by
    rw [isAbsolute_unify, isRooted_iff]
    exact .inr hpath
  rw [resolveChars_of_isAbsolute habsolute, normaliseChars_congr (unify_unify path)]

/-- The path as it is leads on from the folder of the document. Both are the same only where it
makes no difference to start in that folder or at the root. -/
theorem normaliseChars_eq_resolveChars_iff {document path : List Char}
    (hdocument : ¬ Plain document)
    (hpath : path.head? = some '\\') :
    normaliseChars path = resolveChars document path ↔
      isRooted document = true ∧
        (Directory.root.folder document).follow (components path) =
          Directory.root.follow (components path) := by
  have hrooted : isRooted path = true := isRooted_iff.mpr (.inr hpath)
  have hrelative : isAbsolute path = false := by
    rw [Bool.eq_false_iff]
    intro h
    rw [isAbsolute_iff, hpath] at h
    exact absurd h (by decide)
  have hwalk : ∀ directory : Directory,
      directory.walkChars path = Directory.root.follow (components path) := by
    intro directory
    rw [Directory.walkChars, Directory.start_of_isRooted _ hrooted]
  -- The one path always leads from the root, and the other one from the folder of the document.
  have hbeneath := walkChars_resolveChars_beneath hdocument path hrelative
  constructor
  · intro h
    -- Equal normal forms are both absolute or both not.
    have hsame : isRooted path = isRooted document := by
      rw [resolveChars_of_not_plain hdocument hrelative] at h
      exact (normaliseChars_eq_iff.mp h).1.trans (isRooted_beneath hdocument path)
    refine ⟨hsame.symm.trans hrooted, ?_⟩
    rw [← hbeneath, ← h, walkChars_normaliseChars, hwalk]
  · intro h
    obtain ⟨hdocumentRooted, hfollow⟩ := h
    have hfolder : ∀ directory : Directory,
        directory.folder document = Directory.root.folder document := by
      intro directory
      rw [Directory.folder, Directory.folder, Directory.start_of_isRooted _ hdocumentRooted,
        Directory.start_of_isRooted _ hdocumentRooted]
    rw [resolveChars_of_not_plain hdocument hrelative, normaliseChars_eq_iff_walkChars]
    intro directory
    rw [hwalk, ← hfollow, ← hfolder directory, ← hbeneath,
      resolveChars_of_not_plain hdocument hrelative, walkChars_normaliseChars]

/-- **When backslashes are as good as slashes.** Writing both paths with slashes changes nothing
exactly if no backslash stands in front of the written path, or the document has no folder, or the
path of the document is rooted and the written path climbs out of its folder, so that it leads to
the same place from there as from the root. -/
theorem resolve_slashed_iff (document path : String) :
    resolve (slashed document) (slashed path) = resolve document path ↔
      path.toList.head? ≠ some '\\' ∨ Plain document.toList ∨
        isRooted document.toList = true ∧
          (Directory.root.folder document.toList).follow (components path.toList) =
            Directory.root.follow (components path.toList) := by
  have hchars : resolve (slashed document) (slashed path) = resolve document path ↔
      resolveChars (unify document.toList) (unify path.toList) =
        resolveChars document.toList path.toList := by
    rw [resolve, resolve, slashed, slashed, String.toList_ofList, String.toList_ofList,
      String.ofList_inj]
  rw [hchars]
  by_cases hpath : path.toList.head? = some '\\'
  · rw [resolveChars_unify_of_backslash hpath, or_iff_right (not_not.mpr hpath)]
    by_cases hdocument : Plain document.toList
    · rw [resolveChars_of_plain hdocument]
      exact iff_of_true rfl (.inl hdocument)
    · rw [normaliseChars_eq_resolveChars_iff hdocument hpath, or_iff_right hdocument]
  · exact iff_of_true (resolveChars_unify hpath) (.inl hpath)

/-- With a backslash in front, a path stays in the folder of the document that writes it; with a
slash it does not. -/
theorem separators_differ :
    ¬ ∀ document path : String,
      resolve document path = resolve (slashed document) (slashed path) := by
  intro h
  exact absurd (h "stage/main" "\\lights") (by decide +kernel)

end Cuesheet.Path
