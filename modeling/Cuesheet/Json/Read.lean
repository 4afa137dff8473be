import Cuesheet.Json.Basic

/-!
# Reading JSON text

The reader follows the grammar over a list of characters. Repeated names are kept, because whether
they matter is decided by who reads the tree. Two kinds of literal are well formed and still have
no value: a number beyond the range of floats and a string with half of a surrogate pair. Nor has an
object with such a string as a name. The tree holds a float that is not finite in their place, which
no other text produces.

The budget `fuel` bounds the recursion. Every step that spends it consumes a character, so twice the
length of the text is always enough.
-/

set_option autoImplicit false

namespace Cuesheet.Json.Reader

/-- What stands for a literal without a value. -/
def valueless : Json := .float (0.0 / 0.0)

/-- Space, tab, line feed and carriage return. -/
def isBlank (c : Char) : Bool := c == ' ' || c == '\t' || c == '\n' || c == '\r'

/-- Drops leading blanks. -/
def skipBlanks : List Char → List Char
  | [] => []
  | c :: rest => if isBlank c then skipBlanks rest else c :: rest

/-- Drops the given characters from the front of the text. -/
def expect? : List Char → List Char → Option (List Char)
  | [], text => some text
  | _ :: _, [] => none
  | want :: wanted, c :: text => if want = c then expect? wanted text else none

/-! ## Numbers -/

/-- The leading digits and what follows them. -/
def spanDigits : List Char → List Char × List Char
  | [] => ([], [])
  | c :: rest =>
    if c.isDigit then
      let (digits, tail) := spanDigits rest
      (c :: digits, tail)
    else ([], c :: rest)

/-- The number that a list of digits denotes. -/
def digitsValue (digits : List Char) : Nat :=
  digits.foldl (fun total c => 10 * total + (c.toNat - '0'.toNat)) 0

/-- The parts of a number literal. -/
structure Literal where
  negative : Bool
  whole : List Char
  fraction : Option (List Char)
  exponent : Option (Bool × List Char)

/-- An optional fraction: a point and at least one digit. -/
def fraction? : List Char → Option (Option (List Char) × List Char)
  | '.' :: rest =>
    match spanDigits rest with
    | ([], _) => none
    | (digits, tail) => some (some digits, tail)
  | text => some (none, text)

/-- The sign of an exponent. -/
def exponentSign : List Char → Bool × List Char
  | '+' :: rest => (false, rest)
  | '-' :: rest => (true, rest)
  | text => (false, text)

/-- An optional exponent: a mark, a sign or none, and at least one digit. -/
def exponent? : List Char → Option (Option (Bool × List Char) × List Char)
  | c :: rest =>
    if c = 'e' ∨ c = 'E' then
      let (negative, text) := exponentSign rest
      match spanDigits text with
      | ([], _) => none
      | (digits, tail) => some (some (negative, digits), tail)
    else some (none, c :: rest)
  | [] => some (none, [])

/-- The digits before the point: a lone zero, or digits that do not start with one. -/
def whole? (text : List Char) : Option (List Char × List Char) :=
  match spanDigits text with
  | ([], _) => none
  | ('0' :: _ :: _, _) => none
  | found => some found

/-- The parts of a number literal without its sign. -/
def unsigned? (negative : Bool) (text : List Char) : Option (Literal × List Char) := do
  let (whole, text) ← whole? text
  let (fraction, text) ← fraction? text
  let (exponent, text) ← exponent? text
  return (⟨negative, whole, fraction, exponent⟩, text)

/-- The parts of a number literal. -/
def literal? : List Char → Option (Literal × List Char)
  | '-' :: rest => unsigned? true rest
  | text => unsigned? false text

/-- The float nearest to `± digits · 10 ^ scale`. Sizes far beyond the range of floats are decided
without computing the power. -/
def nearestFloat (negative : Bool) (digits : List Char) (scale : Int) : Float :=
  let significant := digits.dropWhile (· == '0')
  let n := digitsValue significant
  let top : Int := significant.length + scale
  let size : Float :=
    if n = 0 ∨ top < -400 then 0.0
    else if 400 < top then 1.0 / 0.0
    else Float.ofScientific n (scale < 0) scale.natAbs
  if negative then -size else size

/-- The value of a literal: whole numbers that fit 64 bits are integers, everything else, minus
zero included, is a float. -/
def Literal.value (literal : Literal) : Json :=
  let fraction := literal.fraction.getD []
  let power : Int :=
    match literal.exponent with
    | none => 0
    | some (negative, digits) =>
      let size : Int := digitsValue digits
      if negative then -size else size
  let asFloat :=
    nearestFloat literal.negative (literal.whole ++ fraction) (power - fraction.length)
  let n := digitsValue literal.whole
  let isWhole := literal.fraction.isNone && literal.exponent.isNone
  let fits := if literal.negative then 0 < n && n ≤ Nat.pow 2 63 else n < Nat.pow 2 64
  if isWhole && fits then .int (if literal.negative then -(n : Int) else n)
  else if asFloat.isFinite then .float asFloat
  else valueless

/-! ## Strings -/

/-- The value of a hexadecimal digit in either case. -/
def hexValue? (c : Char) : Option Nat :=
  if '0' ≤ c ∧ c ≤ '9' then some (c.toNat - '0'.toNat)
  else if 'a' ≤ c ∧ c ≤ 'f' then some (c.toNat - 'a'.toNat + 10)
  else if 'A' ≤ c ∧ c ≤ 'F' then some (c.toNat - 'A'.toNat + 10)
  else none

/-- The 16-bit unit of four hexadecimal digits. -/
def unit? : List Char → Option (Nat × List Char)
  | a :: b :: c :: d :: rest => do
    let a ← hexValue? a
    let b ← hexValue? b
    let c ← hexValue? c
    let d ← hexValue? d
    return (((a * 16 + b) * 16 + c) * 16 + d, rest)
  | _ => none

/-- A unit that opens a surrogate pair. -/
def isHighSurrogate (unit : Nat) : Bool := 0xD800 ≤ unit && unit < 0xDC00

/-- A unit that closes a surrogate pair. -/
def isLowSurrogate (unit : Nat) : Bool := 0xDC00 ≤ unit && unit < 0xE000

/-- The character that a pair of surrogates stands for. -/
def pairChar (high low : Nat) : Char :=
  Char.ofNat (0x10000 + (high - 0xD800) * 0x400 + (low - 0xDC00))

/-- The character behind a backslash that needs no digits. -/
def simpleEscape? (c : Char) : Option Char :=
  if c = '"' ∨ c = '\\' ∨ c = '/' then some c
  else if c = 'b' then some (Char.ofNat 8)
  else if c = 'f' then some (Char.ofNat 12)
  else if c = 'n' then some '\n'
  else if c = 'r' then some '\r'
  else if c = 't' then some '\t'
  else none

/-- The character of the escape behind `\u`: none inside the first answer when it is half of a
pair. -/
def unicodeEscape? (text : List Char) : Option (Option Char × List Char) := do
  let (unit, rest) ← unit? text
  if isLowSurrogate unit then
    return (none, rest)
  else if isHighSurrogate unit then
    match rest with
    | '\\' :: 'u' :: tail =>
      match unit? tail with
      | some (low, tail) =>
        if isLowSurrogate low then return (some (pairChar unit low), tail) else return (none, rest)
      | none => return (none, rest)
    | _ => return (none, rest)
  else
    return (some (Char.ofNat unit), rest)

/-- Puts a character in front of a text that may have no value. -/
def consChar (c : Option Char) (text : Option (List Char)) : Option (List Char) :=
  match c, text with
  | some c, some text => some (c :: text)
  | _, _ => none

/-- The rest of a string behind its opening quote. -/
def stringBody? : Nat → List Char → Option (Option (List Char) × List Char)
  | 0, _ => none
  | _ + 1, [] => none
  | fuel + 1, c :: rest =>
    if c = '"' then some (some [], rest)
    else if c.toNat < 32 then none
    else if c = '\\' then
      match rest with
      | [] => none
      | 'u' :: tail => do
        let (char, tail) ← unicodeEscape? tail
        let (text, tail) ← stringBody? fuel tail
        return (consChar char text, tail)
      | e :: tail => do
        let char ← simpleEscape? e
        let (text, tail) ← stringBody? fuel tail
        return (consChar (some char) text, tail)
    else do
      let (text, tail) ← stringBody? fuel rest
      return (consChar (some c) text, tail)

/-! ## Values -/

/-- Puts a member in front of others; there are none if a name has no value. -/
def consEntry (name : Option (List Char)) (value : Json) (others : Option (List (String × Json))) :
    Option (List (String × Json)) :=
  match name, others with
  | some name, some others => some ((String.ofList name, value) :: others)
  | _, _ => none

mutual

/-- A value, leading blanks dropped. -/
def value? : Nat → List Char → Option (Json × List Char)
  | 0, _ => none
  | fuel + 1, text =>
    match skipBlanks text with
    | [] => none
    | '[' :: rest =>
      match skipBlanks rest with
      | ']' :: tail => some (.array [], tail)
      | rest => do
        let (items, tail) ← itemList? fuel rest
        return (.array items, tail)
    | '\x7b' :: rest =>
      match skipBlanks rest with
      | '\x7d' :: tail => some (.object [], tail)
      | rest => do
        let (entries, tail) ← entryList? fuel rest
        match entries with
        | some entries => return (.object entries, tail)
        | none => return (valueless, tail)
    | '"' :: rest => do
      let (text, tail) ← stringBody? fuel rest
      match text with
      | some chars => return (.string (String.ofList chars), tail)
      | none => return (valueless, tail)
    | 'n' :: rest => (expect? ['u', 'l', 'l'] rest).map fun tail => (.null, tail)
    | 't' :: rest => (expect? ['r', 'u', 'e'] rest).map fun tail => (.bool true, tail)
    | 'f' :: rest => (expect? ['a', 'l', 's', 'e'] rest).map fun tail => (.bool false, tail)
    | text => (literal? text).map fun (literal, tail) => (literal.value, tail)

/-- The items of an array up to its closing bracket; there is at least one. -/
def itemList? : Nat → List Char → Option (List Json × List Char)
  | 0, _ => none
  | fuel + 1, text => do
    let (item, rest) ← value? fuel text
    match skipBlanks rest with
    | ']' :: tail => return ([item], tail)
    | ',' :: tail =>
      let (items, tail) ← itemList? fuel tail
      return (item :: items, tail)
    | _ => none

/-- The members of an object up to its closing brace; there is at least one. -/
def entryList? : Nat → List Char → Option (Option (List (String × Json)) × List Char)
  | 0, _ => none
  | fuel + 1, text =>
    match skipBlanks text with
    | '"' :: rest => do
      let (name, rest) ← stringBody? fuel rest
      match skipBlanks rest with
      | ':' :: rest =>
        let (value, rest) ← value? fuel rest
        match skipBlanks rest with
        | '\x7d' :: tail => return (consEntry name value (some []), tail)
        | ',' :: tail =>
          let (entries, tail) ← entryList? fuel tail
          return (consEntry name value entries, tail)
        | _ => none
      | _ => none
    | _ => none

end

end Cuesheet.Json.Reader

namespace Cuesheet.Json

/-- The tree of a whole text: one value with nothing but blanks around it. -/
def parse? (text : String) : Option Json := do
  let chars := text.toList
  let (value, rest) ← Reader.value? (2 * chars.length + 2) chars
  if (Reader.skipBlanks rest).isEmpty then some value else none

end Cuesheet.Json
