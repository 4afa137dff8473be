import Cuesheet.Number.Dyadic

/-!
# The fewest digits that read back

A decimal reads back as a float when it lies between the midpoints to the float's two neighbours;
the midpoints count exactly when the mantissa is even. `Decimal.ofDyadic` tries the grids of one,
two, … seventeen digits. On each grid only the two points next to the value can lie nearest to it,
so the first grid with a hit gives the fewest digits, and of two hits the nearer one is taken. A
value halfway between two hits goes where `Tie` says. All arithmetic is on whole numbers.
-/

set_option autoImplicit false

namespace Cuesheet

/-- The number `d.ddd · 10 ^ exponent`, where `digits` lists the digits without the point. -/
structure Decimal where
  digits : List Char
  exponent : Int
  deriving Repr, DecidableEq

/-- Where a value goes that lies halfway between two decimals. -/
inductive Tie where
  /-- To the one with an even last digit. -/
  | toEven
  /-- To the greater one. -/
  | up
  deriving Repr, DecidableEq

namespace Decimal

/-- How many decimal digits `n` has. -/
def digitCount (n : Nat) : Nat := (Nat.toDigits 10 n).length

/-- The `e` with `10 ^ e ≤ num / den < 10 ^ (e + 1)`, for positive `num` and `den`. -/
def magnitude (num den : Nat) : Int :=
  if den ≤ num then
    (digitCount (num / den) : Int) - 1
  else
    let k := digitCount (den / num) - 1
    if den ≤ num * Nat.pow 10 k then -(k : Int) else -((k : Int) + 1)

/-- The value and the two midpoints around it, as fractions over one denominator. -/
structure Interval where
  low : Nat
  value : Nat
  high : Nat
  den : Nat
  closed : Bool

/-- The interval of decimals that read back as `d`, in quarters of its last binary place. -/
def interval (d : Dyadic) : Interval :=
  let up := Nat.pow 2 (d.exponent - 2).toNat
  let down := Nat.pow 2 (2 - d.exponent).toNat
  let below := if d.startsBinade then 1 else 2
  { low := (4 * d.mantissa - below) * up
    value := 4 * d.mantissa * up
    high := (4 * d.mantissa + 2) * up
    den := down
    closed := d.mantissa % 2 == 0 }

/-- Whether `floor` is taken rather than the next number, from the distances to both. -/
def prefersFloor (tie : Tie) (floor toFloor toNext : Nat) : Bool :=
  if toFloor = toNext then tie = .toEven && floor % 2 == 0 else toFloor < toNext

/-- The grid point of step `10 ^ place` that lies in the interval, the nearer one of two. -/
def gridPoint? (tie : Tie) (range : Interval) (place : Int) : Option Nat :=
  let grow := Nat.pow 10 (-place).toNat
  let unit := range.den * Nat.pow 10 place.toNat
  let value := range.value * grow
  let floor := value / unit
  let below := floor * unit
  let above := below + unit
  let within (a b : Nat) : Bool := if range.closed then a ≤ b else a < b
  let fitsBelow := within (range.low * grow) below
  let fitsAbove := within above (range.high * grow)
  if fitsBelow && (!fitsAbove || prefersFloor tie floor (value - below) (above - value)) then
    some floor
  else if fitsAbove then some (floor + 1)
  else none

/-- Writes `n · 10 ^ place` with its digits; a value that filled up to a power of ten loses the
zeros behind its one. -/
def ofGrid (n : Nat) (place : Int) : Decimal :=
  let digits := Nat.toDigits 10 n
  let kept := (digits.reverse.dropWhile (· == '0')).reverse
  ⟨kept, place + (digits.length : Int) - 1⟩

/-- The shortest decimal that reads back as the positive number `d`. -/
def ofDyadic (tie : Tie) (d : Dyadic) : Decimal :=
  let range := interval d
  let top := magnitude range.value range.den
  let hit := (List.range 17).findSome? fun (extra : Nat) =>
    let place : Int := top - extra
    (gridPoint? tie range place).map fun n => ofGrid n place
  hit.getD ⟨['0'], 0⟩

end Decimal

end Cuesheet
