import Cuesheet.Engine.Numbering

/-!
# Random ids

An id of 128 bits, of which six say that it is random, in hexadecimal digits with hyphens. A supply
of them starts from two random words and spreads the number of every entity over all bits.
-/

set_option autoImplicit false

namespace Cuesheet.Engine.Uuid

/-- The digit of a value below sixteen. -/
def hexDigit (n : Nat) : Char := if n < 10 then Char.ofNat (48 + n) else Char.ofNat (87 + n)

/-- The last `count` hexadecimal digits of a number. -/
def hexDigits : (count : Nat) → Nat → List Char
  | 0, _ => []
  | count + 1, n => hexDigits count (n / 16) ++ [hexDigit (n % 16)]

/-- The id with the given bits, those that mark random ids set. -/
def ofWords (high low : UInt64) : String :=
  let high := ((high &&& 0xFFFFFFFFFFFF0FFF) ||| 0x4000).toNat
  let low := ((low &&& 0x3FFFFFFFFFFFFFFF) ||| 0x8000000000000000).toNat
  String.ofList (hexDigits 8 (high / Nat.pow 2 32) ++ '-' :: hexDigits 4 (high / Nat.pow 2 16) ++
    '-' :: hexDigits 4 high ++ '-' :: hexDigits 4 (low / Nat.pow 2 48) ++ '-' :: hexDigits 12 low)

/-- Spreads the bits of a word. Different words stay different. -/
def mix (word : UInt64) : UInt64 :=
  let a := (word ^^^ (word >>> 30)) * 0xBF58476D1CE4E5B9
  let b := (a ^^^ (a >>> 27)) * 0x94D049BB133111EB
  b ^^^ (b >>> 31)

/-- The ids that follow from two random words. -/
def supply (high low : UInt64) : IdSupply := fun _ number =>
  let step : UInt64 := 0x9E3779B97F4A7C15
  let count := UInt64.ofNat number
  ofWords (mix (high + step * count)) (mix (low + step * (count + count)))

end Cuesheet.Engine.Uuid
