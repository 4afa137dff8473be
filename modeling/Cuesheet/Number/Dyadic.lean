/-!
# Floats as integers times powers of two

Every finite float is `± m · 2 ^ q` with whole `m` and `q`. This module takes a float apart into
those three parts, and computes from them the two things that need exact arithmetic: the whole
number a float stands for, and the remainder of a division that truncates.
-/

set_option autoImplicit false

namespace Cuesheet

/-- The number `± mantissa · 2 ^ exponent`. -/
structure Dyadic where
  negative : Bool
  mantissa : Nat
  exponent : Int
  deriving Repr, DecidableEq

namespace Dyadic

/-- The parts of a finite float; infinities and the undefined value have none. -/
def ofFloat? (x : Float) : Option Dyadic :=
  let bits : Nat := x.toBits.toNat
  let negative := bits / Nat.pow 2 63 % 2 == 1
  let biased : Nat := bits / Nat.pow 2 52 % Nat.pow 2 11
  let fraction : Nat := bits % Nat.pow 2 52
  if biased = 2047 then
    none
  else if biased = 0 then
    some ⟨negative, fraction, -1074⟩
  else
    some ⟨negative, fraction + Nat.pow 2 52, (biased : Int) - 1075⟩

/-- Whether the two neighbours of the float lie at different distances: it starts a new binade. -/
def startsBinade (d : Dyadic) : Bool := d.mantissa == Nat.pow 2 52 && d.exponent != -1074

/-- Whether the number is whole. -/
def isWhole (d : Dyadic) : Bool :=
  match d.exponent with
  | .ofNat _ => true
  | .negSucc k => d.mantissa % Nat.pow 2 (k + 1) == 0

/-- The whole part, toward zero. -/
def truncate (d : Dyadic) : Int :=
  let size : Nat :=
    match d.exponent with
    | .ofNat k => d.mantissa * Nat.pow 2 k
    | .negSucc k => d.mantissa / Nat.pow 2 (k + 1)
  if d.negative then -(size : Int) else size

/-- The float `mantissa · 2 ^ exponent`, with the sign of `d`. It is exact whenever the mantissa
fits 53 bits and the value lies in the range of floats. -/
def toFloat (d : Dyadic) : Float :=
  let size := (Float.ofNat d.mantissa).scaleB d.exponent
  if d.negative then -size else size

/-- The remainder of `a` by `b` after a division that truncates: it has the sign of `a` and is
smaller in size than `b`. -/
def remainder (a b : Dyadic) : Dyadic :=
  let low := min a.exponent b.exponent
  let scaledA := a.mantissa * Nat.pow 2 (a.exponent - low).toNat
  let scaledB := b.mantissa * Nat.pow 2 (b.exponent - low).toNat
  ⟨a.negative, scaledA % scaledB, low⟩

end Dyadic

namespace Number

/-- The remainder of two floats after a division that truncates. Between finite floats, the divisor
not zero, it is exact. -/
def remainder (x y : Float) : Float :=
  match Dyadic.ofFloat? x, Dyadic.ofFloat? y with
  | some a, some b => (a.remainder b).toFloat
  | some _, none => if y.isNaN then y else x
  | none, _ => 0.0 / 0.0

end Number

end Cuesheet
