import Cuesheet.Number.Shortest

/-!
# How floats are written

Two forms are in use. Values are written so that a float never looks like an integer: positional
with at least one digit after the point for moderate sizes, and with a signed exponent beyond
them. Messages write the plain positional form for every size.
-/

set_option autoImplicit false

namespace Cuesheet

/-- The choices that turn a shortest decimal into text. -/
structure FloatLayout where
  /-- The least exponent that is still written positionally; none means every exponent is. -/
  least : Option Int
  /-- The greatest exponent that is still written positionally; none means every exponent is. -/
  greatest : Option Int
  /-- What follows a whole number. -/
  wholeTail : List Char
  /-- Where a value goes between two decimals of the same length. -/
  tie : Tie

namespace FloatLayout

/-- Floats in JSON text: positional from `10 ^ -5` up to `10 ^ 15`, whole numbers end in `.0`, and
ties go to the even digit. -/
def value : FloatLayout := ⟨some (-5), some 15, ['.', '0'], .toEven⟩

/-- Floats in messages: always positional, whole numbers without a point, and ties go up. -/
def message : FloatLayout := ⟨none, none, [], .up⟩

/-- Whether numbers of this decimal exponent are written positionally. -/
def isPositional (layout : FloatLayout) (exponent : Int) : Bool :=
  layout.least.all (· ≤ exponent) && layout.greatest.all (exponent ≤ ·)

/-- The digits with the point `point` places behind the first digit's left side. -/
def positional (layout : FloatLayout) (digits : List Char) (point : Int) : List Char :=
  if point ≤ 0 then
    '0' :: '.' :: (List.replicate (-point).toNat '0' ++ digits)
  else if digits.length ≤ point.toNat then
    digits ++ List.replicate (point.toNat - digits.length) '0' ++ layout.wholeTail
  else
    digits.take point.toNat ++ '.' :: digits.drop point.toNat

/-- One digit before the point, the others behind it, and the exponent with its sign. -/
def scientific (digits : List Char) (exponent : Int) : List Char :=
  let head := digits.take 1
  let tail := digits.drop 1
  let sign := if exponent < 0 then '-' else '+'
  head ++ (if tail.isEmpty then [] else '.' :: tail) ++
    'e' :: sign :: Nat.toDigits 10 exponent.natAbs

/-- The text of a positive decimal. -/
def ofDecimal (layout : FloatLayout) (d : Decimal) : List Char :=
  if layout.isPositional d.exponent then layout.positional d.digits (d.exponent + 1)
  else scientific d.digits d.exponent

/-- The text of a float. -/
def write (layout : FloatLayout) (x : Float) : List Char :=
  match Dyadic.ofFloat? x with
  | none =>
    if x.isNaN then ['N', 'a', 'N']
    else if x < 0 then ['-', 'i', 'n', 'f']
    else ['i', 'n', 'f']
  | some d =>
    let size :=
      if d.mantissa = 0 then '0' :: layout.wholeTail
      else layout.ofDecimal (.ofDyadic layout.tie d)
    if d.negative then '-' :: size else size

end FloatLayout

/-- A float as messages show it. -/
def Number.messageText (x : Float) : String := String.ofList (FloatLayout.message.write x)

end Cuesheet
