import Cuesheet.Proofs.Text.ByteOrder
import Cuesheet.Proofs.Text.EditDistance
import Mathlib.Data.List.Destutter
import Mathlib.Data.List.Sort
import Mathlib.Data.Prod.Lex

/-!
# What is suggested

Candidates are put one by one into a list that is kept in order of their rank, and one that is there
already is not put in again. The list is never sorted as a whole, so that it is in order, and that
it has every candidate within reach once, is carried along from candidate to candidate
(`Text.Ranks.insertRanked`).

The result is fixed by this: of all lists there is only one that is in strict order and has the
given members. So it does not matter in which order candidates come and how often
(`Text.suggest_ranked`), and sorting all of them first and then dropping repetitions that stand side
by side gives the same (`Text.rank_eq_destutter_mergeSort`).
-/

set_option autoImplicit false

namespace Cuesheet.Text

/-! ## The order of candidates -/

/-- How far a candidate is from the name, whatever the case of the letters. -/
def distanceTo (name candidate : String) : Nat := editDistance (lower name) (lower candidate)

/-- A candidate comes before another one: it is closer to the name, or as close and first in the
order of bytes. -/
def Outranks (name first second : String) : Prop :=
  distanceTo name first < distanceTo name second ∨
    distanceTo name first = distanceTo name second ∧ bytes first < bytes second

/-- The rank of a candidate, as a pair in lexicographic order. -/
def rankOf (name candidate : String) : ℕ ×ₗ String := toLex (distanceTo name candidate, candidate)

theorem outranks_iff {name first second : String} :
    Outranks name first second ↔ rankOf name first < rankOf name second := by
  rw [Outranks, ← lt_iff_bytes_lt, Prod.Lex.lt_iff]
  rfl

instance (name : String) : Std.Irrefl (Outranks name) where
  irrefl candidate := by
    rw [outranks_iff]
    exact lt_irrefl _

instance (name : String) : Std.Antisymm (Outranks name) where
  antisymm first second h h' := by
    rw [outranks_iff] at h h'
    exact absurd h' (lt_asymm h)

theorem Outranks.trans {name first second third : String} (h : Outranks name first second)
    (h' : Outranks name second third) : Outranks name first third := by
  rw [outranks_iff] at h h' ⊢
  exact lt_trans h h'

theorem rankOf_injective (name : String) : Function.Injective (rankOf name) := fun _ _ h =>
  congrArg (fun rank => (ofLex rank).2) h

theorem Outranks.total {name first second : String} (hne : first ≠ second)
    (h : ¬ Outranks name first second) : Outranks name second first := by
  rw [outranks_iff] at h ⊢
  exact lt_of_le_of_ne (not_lt.mp h) fun heq => hne (rankOf_injective name heq).symm

/-! ## Putting in one candidate -/

/-- A candidate with its distance to the name. -/
def scored (name candidate : String) : Ranked := ⟨distanceTo name candidate, candidate⟩

theorem before_scored_iff {name first second : String} :
    (scored name first).before (scored name second) = true ↔ Outranks name first second := by
  unfold Ranked.before
  rw [Bool.or_eq_true, Bool.and_eq_true, decide_eq_true_iff, decide_eq_true_iff, beq_iff_eq,
    lt_iff_bytes_lt]
  rfl

/-- The list ranks the members of a set: it has each of them once, with its distance, and the better
ones first. -/
def Ranks (name : String) (members : Set String) (list : List Ranked) : Prop :=
  ∃ ranking : List String, list = ranking.map (scored name) ∧ ranking.Pairwise (Outranks name) ∧
    ∀ candidate, candidate ∈ ranking ↔ candidate ∈ members

theorem insertRanked_scored {name : String} (candidate : String) {ranking : List String}
    (h : ranking.Pairwise (Outranks name)) :
    Ranks name (insert candidate {other | other ∈ ranking})
      (insertRanked (scored name candidate) (ranking.map (scored name))) := by
  induction ranking with
  | nil => exact ⟨[candidate], rfl, List.pairwise_singleton _ _, by simp⟩
  | cons first rest ih =>
    obtain ⟨hfirst, hrest⟩ := List.pairwise_cons.mp h
    have hname : (scored name candidate).name = (scored name first).name ↔ candidate = first := .rfl
    rw [List.map_cons, insertRanked]
    by_cases hsame : candidate = first
    · -- It is there already.
      rw [if_pos (hname.mpr hsame)]
      exact ⟨first :: rest, rfl, h, by simp [hsame]⟩
    rw [if_neg (mt hname.mp hsame)]
    by_cases hbefore : Outranks name candidate first
    · rw [if_pos (before_scored_iff.mpr hbefore)]
      refine ⟨candidate :: first :: rest, rfl, List.pairwise_cons.mpr ⟨?_, h⟩, by simp⟩
      intro other hother
      rcases List.mem_cons.mp hother with rfl | hother
      · exact hbefore
      · exact hbefore.trans (hfirst other hother)
    · rw [if_neg (mt before_scored_iff.mp hbefore)]
      obtain ⟨larger, hlarger, hpairwise, hmem⟩ := ih hrest
      refine ⟨first :: larger, by rw [hlarger]; rfl, List.pairwise_cons.mpr ⟨?_, hpairwise⟩, ?_⟩
      · intro other hother
        rcases (hmem other).mp hother with rfl | hother
        · exact Outranks.total hsame hbefore
        · exact hfirst other hother
      · intro other
        simp only [List.mem_cons, hmem, Set.mem_insert_iff, Set.mem_ofPred_eq]
        exact or_left_comm

namespace Ranks

variable {name : String} {members : Set String} {list : List Ranked}

theorem insertRanked (h : Ranks name members list) (candidate : String) :
    Ranks name (insert candidate members) (Text.insertRanked (scored name candidate) list) := by
  obtain ⟨ranking, rfl, hpairwise, hmem⟩ := h
  have hmembers : members = {other | other ∈ ranking} := Set.ext fun other => (hmem other).symm
  rw [hmembers]
  exact insertRanked_scored candidate hpairwise

theorem foldl (candidates : List String) (h : Ranks name members list) :
    Ranks name ({candidate | candidate ∈ candidates} ∪ members)
      ((candidates.map (scored name)).foldl (fun ranked a => Text.insertRanked a ranked) list) := by
  induction candidates generalizing members list with
  | nil => simpa using h
  | cons candidate candidates ih =>
    have hrest := ih (h.insertRanked candidate)
    have hmembers : {other | other ∈ candidates} ∪ insert candidate members =
        {other | other ∈ candidate :: candidates} ∪ members := by
      ext other
      simp only [Set.mem_union, Set.mem_insert_iff, Set.mem_ofPred_eq, List.mem_cons]
      tauto
    rwa [hmembers] at hrest

/-- There is one ranking of a set. Both lists are in strict order, so they have no repetitions and
are permutations of one another. -/
theorem unique {other : List Ranked} (h : Ranks name members list) (h' : Ranks name members other) :
    list = other := by
  obtain ⟨ranking, rfl, hpairwise, hmem⟩ := h
  obtain ⟨second, rfl, hpairwise', hmem'⟩ := h'
  have hsame : ranking = second :=
    hpairwise.eq_of_mem_iff hpairwise' fun candidate =>
      (hmem candidate).trans (hmem' candidate).symm
  rw [hsame]

end Ranks

/-! ## The whole ranking -/

/-- The candidates that are close enough to the name. -/
def within (name : String) (candidates : List String) : Set String :=
  {candidate | candidate ∈ candidates ∧ distanceTo name candidate ≤ 3}

/-- The candidates that are close enough, in the order in which they are given. -/
def near (name : String) (candidates : List String) : List String :=
  candidates.filter fun candidate => distanceTo name candidate ≤ 3

theorem mem_near {name candidate : String} {candidates : List String} :
    candidate ∈ near name candidates ↔ candidate ∈ within name candidates := by
  simp [near, within]

/-- Scoring the candidates and then keeping the close ones is the same as keeping them first. -/
theorem filter_scored (name : String) (candidates : List String) :
    (candidates.map (scored name)).filter (·.distance ≤ suggestionReach) =
      (near name candidates).map (scored name) := by
  rw [List.filter_map]
  rfl

theorem rank_ranks (name : String) (candidates : List String) :
    Ranks name (within name candidates) (rank name candidates) := by
  have hempty : Ranks name ∅ [] := ⟨[], rfl, .nil, by simp⟩
  have hall := hempty.foldl (near name candidates)
  have hmembers :
      {candidate | candidate ∈ near name candidates} ∪ ∅ = within name candidates := by
    rw [Set.union_empty]
    exact Set.ext fun candidate => mem_near
  rw [hmembers, ← filter_scored] at hall
  exact hall

/-! ## Sorting at once

The same ranking comes of sorting all candidates at once and dropping each that has the name of the
one before it. Equal names have equal distances, so they stand side by side in a sorted list, and
nothing else is dropped. -/

/-- The comparison by which candidates are sorted. -/
def notBehind (name first second : String) : Bool :=
  !(scored name second).before (scored name first)

theorem notBehind_iff {name first second : String} :
    notBehind name first second = true ↔ rankOf name first ≤ rankOf name second := by
  rw [notBehind, Bool.not_eq_true', ← Bool.not_eq_true, before_scored_iff, outranks_iff, not_lt]

instance (name : String) : Std.Antisymm fun first second => notBehind name first second = true where
  antisymm first second h h' := by
    rw [notBehind_iff] at h h'
    exact rankOf_injective name (le_antisymm h h')

theorem pairwise_mergeSort_notBehind (name : String) (candidates : List String) :
    (candidates.mergeSort (notBehind name)).Pairwise
      fun first second => notBehind name first second = true := by
  refine List.pairwise_mergeSort ?_ ?_ candidates
  · intro first second third h h'
    rw [notBehind_iff] at h h' ⊢
    exact le_trans h h'
  · intro first second
    rw [Bool.or_eq_true, notBehind_iff, notBehind_iff]
    exact le_total _ _

/-- **The ranking is the sorted list of the candidates within reach, without repetitions.** The
definition inserts one candidate after another into a list that is always sorted. This says the same
in terms of a stable sort of all of them, after which equal ones stand side by side. -/
theorem rank_eq_destutter_mergeSort (name : String) (candidates : List String) :
    rank name candidates =
      (((candidates.map (scored name)).filter (·.distance ≤ suggestionReach)).mergeSort
        fun first second => !second.before first).destutter
          fun first second => first.name ≠ second.name := by
  have hsorted := pairwise_mergeSort_notBehind name (near name candidates)
  refine (rank_ranks name candidates).unique
    ⟨((near name candidates).mergeSort (notBehind name)).destutter (· ≠ ·), ?_, ?_, ?_⟩
  · have hscored : ((near name candidates).mergeSort (notBehind name)).map (scored name) =
        ((near name candidates).map (scored name)).mergeSort
          fun first second => !second.before first := List.map_mergeSort fun _ _ _ _ => rfl
    rw [filter_scored, ← hscored]
    symm
    apply List.map_destutter
    intros
    rfl
  · -- What is left is sorted and has no repetitions, so it is in strict order.
    rw [hsorted.destutter_eq_dedup]
    have hstill := hsorted.sublist (List.dedup_sublist _)
    refine (hstill.and (List.nodup_dedup _)).imp ?_
    rintro first second ⟨h, hne⟩
    rw [notBehind_iff] at h
    rw [outranks_iff]
    exact lt_of_le_of_ne h fun hrank => hne (rankOf_injective name hrank)
  · intro candidate
    rw [hsorted.destutter_eq_dedup, List.mem_dedup, List.mem_mergeSort, mem_near]

/-! ## The best three -/

/-- What is cut off from a ranking comes behind all that is kept, and nothing is cut off before
there is enough. -/
theorem behind_of_not_mem_take {name : String} {ranking : List String}
    (h : ranking.Pairwise (Outranks name)) {count : Nat} {candidate : String}
    (hmem : candidate ∈ ranking) (hcut : candidate ∉ ranking.take count) :
    (ranking.take count).length = count ∧
      ∀ kept ∈ ranking.take count, Outranks name kept candidate := by
  rw [← List.take_append_drop count ranking] at h hmem
  have hdrop : candidate ∈ ranking.drop count := (List.mem_append.mp hmem).resolve_left hcut
  constructor
  · have hlength := List.length_pos_of_mem hdrop
    rw [List.length_drop] at hlength
    rw [List.length_take]
    omega
  · intro kept hkept
    exact (List.pairwise_append.mp h).2.2 kept hkept candidate hdrop

/-- The suggestions are the start of a ranking, namely of all candidates that are near enough. -/
theorem exists_ranking (name : String) (candidates : List String) : ∃ ranking : List String,
    (∀ candidate, candidate ∈ ranking ↔
      candidate ∈ candidates ∧ distanceTo name candidate ≤ 3) ∧
    ranking.Pairwise (Outranks name) ∧ suggest name candidates = ranking.take 3 := by
  obtain ⟨ranking, hrank, hpairwise, hmem⟩ := rank_ranks name candidates
  refine ⟨ranking, hmem, hpairwise, ?_⟩
  rw [suggest, hrank, ← List.map_take, List.map_map]
  exact List.map_id (ranking.take 3)

/-- **The best three candidates are suggested.** Of the candidates within a distance of three, in
order of their distance and then of their bytes, the first three are suggested, or all if there are
fewer. The distance is the least number of edits between the texts in lower case. So nothing is
suggested twice, it does not matter in which order and how often candidates are given, and a
candidate that is close enough is left out only behind three better ones. -/
theorem suggest_ranked :
    (∀ first second : List Char, IsLeast {n | Edits n first second} (editDistance first second)) ∧
    ∀ (name : String) (candidates : List String),
      (∃ ranking : List String,
        (∀ candidate, candidate ∈ ranking ↔
          candidate ∈ candidates ∧ distanceTo name candidate ≤ 3) ∧
        ranking.Pairwise (Outranks name) ∧ suggest name candidates = ranking.take 3) ∧
      (suggest name candidates).Nodup ∧
      (∀ others : List String, (∀ candidate, candidate ∈ others ↔ candidate ∈ candidates) →
        suggest name others = suggest name candidates) ∧
      ∀ candidate ∈ candidates, distanceTo name candidate ≤ 3 →
        candidate ∉ suggest name candidates →
        (suggest name candidates).length = 3 ∧
          ∀ kept ∈ suggest name candidates, Outranks name kept candidate := by
  refine ⟨editDistance_isLeast, ?_⟩
  intro name candidates
  have hranking := exists_ranking name candidates
  refine ⟨hranking, ?_, ?_, ?_⟩
  · obtain ⟨ranking, -, hpairwise, hsuggest⟩ := hranking
    rw [hsuggest]
    exact hpairwise.nodup.sublist (List.take_sublist 3 ranking)
  · intro others hsame
    -- The ranking depends only on which candidates are near, and a set of them has one ranking.
    have hwithin : within name others = within name candidates := by
      ext candidate
      simp [within, hsame]
    have hrank : rank name others = rank name candidates :=
      (hwithin ▸ rank_ranks name others).unique (rank_ranks name candidates)
    rw [suggest, suggest, hrank]
  · intro candidate hmem hnear hcut
    obtain ⟨ranking, hmembers, hpairwise, hsuggest⟩ := hranking
    rw [hsuggest] at hcut ⊢
    exact behind_of_not_mem_take hpairwise ((hmembers candidate).mpr ⟨hmem, hnear⟩) hcut

/-- Four candidates are one edit away. In another order and with repetitions, the same three are
suggested, and the fourth is behind them. -/
theorem suggest_ranked_class :
    suggest "class" ["glass", "clasp", "clash", "classy", "zzzzzzzz"] =
      ["clash", "clasp", "classy"] ∧
      suggest "class" ["classy", "glass", "zzzzzzzz", "clash", "glass", "clasp", "clash"] =
        ["clash", "clasp", "classy"] ∧
      ∀ kept ∈ ["clash", "clasp", "classy"], Outranks "class" kept "glass" := by
  have hsuggest : suggest "class" ["glass", "clasp", "clash", "classy", "zzzzzzzz"] =
      ["clash", "clasp", "classy"] := by decide +kernel
  have hback : ["classy", "glass", "zzzzzzzz", "clash", "glass", "clasp", "clash"] ⊆
      ["glass", "clasp", "clash", "classy", "zzzzzzzz"] := by decide
  have hforth : ["glass", "clasp", "clash", "classy", "zzzzzzzz"] ⊆
      ["classy", "glass", "zzzzzzzz", "clash", "glass", "clasp", "clash"] := by decide
  obtain ⟨-, -, hsame, hcut⟩ :=
    suggest_ranked.2 "class" ["glass", "clasp", "clash", "classy", "zzzzzzzz"]
  rw [hsuggest] at hsame hcut
  refine ⟨hsuggest, ?_, ?_⟩
  · exact hsame _ fun candidate => ⟨fun h => hback h, fun h => hforth h⟩
  · exact (hcut "glass" (by decide) (by decide +kernel) (by decide)).2

end Cuesheet.Text
