import Cuesheet.Text.Lowercase

/-!
# Suggestions for a misspelt name

Candidates within an edit distance of three, in lower case, are ranked by distance and then by
their characters. The best three are suggested, each once.
-/

set_option autoImplicit false

namespace Cuesheet.Text

/-- One row of the table of distances, from the row above it. The first entry of `above` stands
over `left`; the answer starts behind it. -/
def distanceRow (a : Char) : (left : Nat) → List Char → (above : List Nat) → List Nat
  | left, b :: bs, diagonal :: up :: rest =>
    let here := min (min (up + 1) (left + 1)) (diagonal + if a = b then 0 else 1)
    here :: distanceRow a here bs (up :: rest)
  | _, _, _ => []

/-- The last row of the table, from the row `above` for the first `row` characters. -/
def distanceRows (bs : List Char) : (row : Nat) → List Char → (above : List Nat) → List Nat
  | _, [], above => above
  | row, a :: as, above =>
    distanceRows bs (row + 1) as ((row + 1) :: distanceRow a (row + 1) bs above)

/-- The least number of insertions, deletions and replacements of single characters that turn one
text into the other. -/
def editDistance (as bs : List Char) : Nat :=
  ((distanceRows bs 0 as (List.range (bs.length + 1))).getLast?).getD 0

/-- The greatest distance at which a candidate is still suggested. -/
def suggestionReach : Nat := 3

/-- How many candidates are suggested at most. -/
def suggestionLimit : Nat := 3

/-- A candidate with its distance. -/
structure Ranked where
  distance : Nat
  name : String
  deriving Repr, DecidableEq

/-- Whether `a` is suggested before `b`. -/
def Ranked.before (a b : Ranked) : Bool :=
  a.distance < b.distance || (a.distance == b.distance && a.name < b.name)

/-- Puts a candidate into a ranked list, unless its name is there. -/
def insertRanked (a : Ranked) : List Ranked → List Ranked
  | [] => [a]
  | b :: rest =>
    if a.name = b.name then b :: rest
    else if a.before b then a :: b :: rest
    else b :: insertRanked a rest

/-- The candidates within reach, ranked, each name once. -/
def rank (name : String) (candidates : List String) : List Ranked :=
  let wanted := lower name
  let scored := candidates.map fun candidate =>
    Ranked.mk (editDistance wanted (lower candidate)) candidate
  (scored.filter (·.distance ≤ suggestionReach)).foldl (fun ranked a => insertRanked a ranked) []

/-- The names to suggest in place of `name`. -/
def suggest (name : String) (candidates : List String) : List String :=
  ((rank name candidates).take suggestionLimit).map (·.name)

/-- The end of a message that offers suggestions; nothing when there are none. -/
def suggestionText (suggestions : List String) : String :=
  if suggestions.isEmpty then "" else ". Did you mean: " ++ ", ".intercalate suggestions ++ "?"

end Cuesheet.Text
