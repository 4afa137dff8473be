import Cuesheet.Text.Blank
import Cuesheet.Text.CaseTable

/-!
# Lower case

Lower-casing goes character by character, with two exceptions: a capital I with a dot becomes two
characters, and a capital sigma has one form at the end of a word and another one elsewhere.
-/

set_option autoImplicit false

namespace Cuesheet.Text

/-- The lower-case form of a character, wherever it stands. -/
def lowerChar (c : Char) : Char :=
  let n := c.toNat
  if n < 0x80 then c.toLower
  else
    match lowerRuns.find? fun run =>
        run.first ≤ n && n ≤ run.last && (n - run.first) % run.step == 0 with
    | some run => Char.ofNat ((n : Int) + run.offset).toNat
    | none => c

/-- Whether the first character that is not passed over is a cased letter. -/
def startsCased (text : List Char) : Bool :=
  match text.dropWhile (inRanges caseIgnorableRanges) with
  | c :: _ => inRanges casedRanges c
  | [] => false

/-- The lower-case form of a sigma between the reversed text `before` and the text `after`. -/
def lowerSigma (before after : List Char) : Char :=
  if startsCased before && !startsCased after then 'ς' else 'σ'

/-- Lower-cases a text; `before` is what was passed already, in reverse. -/
def lowerChars (before : List Char) : List Char → List Char
  | [] => []
  | c :: rest =>
    let lowered :=
      if c = 'Σ' then [lowerSigma before rest]
      else if c = 'İ' then ['i', '\u0307']
      else [lowerChar c]
    lowered ++ lowerChars (c :: before) rest

/-- The text in lower case. -/
def lower (s : String) : List Char := lowerChars [] s.toList

end Cuesheet.Text
