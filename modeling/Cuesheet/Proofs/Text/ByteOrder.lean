import Mathlib.Data.String.Basic

/-!
# Texts in the order of their bytes

Strings are compared character by character. In UTF-8 a character takes up to four bytes, and the
encoding is made so that a comparison byte by byte comes out the same: a greater character has, at
the first place where the two encodings differ, the greater byte (`Text.utf8EncodeChar_append_lt`).
-/

set_option autoImplicit false

namespace Cuesheet.Text

/-- The bytes of a text in UTF-8. -/
def bytes (s : String) : List UInt8 := s.toUTF8.data.toList

theorem bytes_eq_flatMap (s : String) : bytes s = s.toList.flatMap String.utf8EncodeChar := by
  have hencoded : s.toUTF8 = s.toList.utf8Encode := by
    rw [← String.toByteArray_ofList, String.ofList_toList]
    rfl
  rw [bytes, hencoded, List.utf8Encode, List.data_toByteArray]

theorem cons_lt_cons_iff_toNat {m n : Nat} {rest other : List UInt8} :
    UInt8.ofNat m :: rest < UInt8.ofNat n :: other ↔
      m % 256 < n % 256 ∨ m % 256 = n % 256 ∧ rest < other := by
  rw [List.cons_lt_cons_iff, UInt8.lt_iff_toNat_lt, ← UInt8.toNat_inj, UInt8.toNat_ofNat',
    UInt8.toNat_ofNat']

/-- Four bytes hold the digits of a number to the base 64, the first of them at most four. -/
theorem four_bytes_lt {v w : Nat} (hvw : v < w) (hw : w < 1114112) (rest other : List UInt8) :
    UInt8.ofNat (v / 262144 % 8 + 240) :: UInt8.ofNat (v / 4096 % 64 + 128) ::
        UInt8.ofNat (v / 64 % 64 + 128) :: UInt8.ofNat (v % 64 + 128) :: rest <
      UInt8.ofNat (w / 262144 % 8 + 240) :: UInt8.ofNat (w / 4096 % 64 + 128) ::
        UInt8.ofNat (w / 64 % 64 + 128) :: UInt8.ofNat (w % 64 + 128) :: other := by
  simp only [cons_lt_cons_iff_toNat]
  rcases Nat.lt_or_ge (v / 4096) (w / 4096) with hupper | hupper
  · -- The upper two digits decide.
    have hdigits : v / 262144 % 8 < w / 262144 % 8 ∨
        v / 262144 % 8 = w / 262144 % 8 ∧ v / 4096 % 64 < w / 4096 % 64 := by omega
    omega
  · have hsame : v / 4096 = w / 4096 :=
      Nat.le_antisymm (Nat.div_le_div_right (Nat.le_of_lt hvw)) hupper
    have hfirst : v / 262144 = w / 262144 := by omega
    have hdigits : v / 64 % 64 < w / 64 % 64 ∨ v / 64 % 64 = w / 64 % 64 ∧ v % 64 < w % 64 := by
      omega
    rw [hsame, hfirst]
    omega

/-- Of two characters, the lesser one has the lesser encoding, whatever follows. -/
theorem utf8EncodeChar_append_lt {c d : Char} (h : c < d) (rest other : List UInt8) :
    String.utf8EncodeChar c ++ rest < String.utf8EncodeChar d ++ other := by
  have hlt : c.val.toNat < d.val.toNat := h
  have hd : d.val.toNat < 1114112 := by
    rcases d.valid with hsmall | hlarge
    · exact Nat.lt_trans hsmall (by decide)
    · exact hlarge.2
  unfold String.utf8EncodeChar
  generalize c.val.toNat = v at *
  generalize d.val.toNat = w at *
  by_cases hv : v ≤ 65535
  · -- The encodings differ in length or in one of at most three bytes.
    simp only
    split_ifs <;> simp only [List.cons_append, List.nil_append, cons_lt_cons_iff_toNat] <;> omega
  · have hv' : ¬ v ≤ 2047 := by omega
    have hv'' : ¬ v ≤ 127 := by omega
    have hw : ¬ w ≤ 65535 := by omega
    have hw' : ¬ w ≤ 2047 := by omega
    have hw'' : ¬ w ≤ 127 := by omega
    simp only [hv, hv', hv'', hw, hw', hw'', if_false]
    exact four_bytes_lt hlt hd rest other

theorem nil_lt_utf8EncodeChar_append (c : Char) (rest : List UInt8) :
    [] < String.utf8EncodeChar c ++ rest := by
  have hne : String.utf8EncodeChar c ≠ [] := by
    unfold String.utf8EncodeChar
    simp only
    split_ifs <;> simp
  cases hencoded : String.utf8EncodeChar c with
  | nil => exact absurd hencoded hne
  | cons byte more => exact List.nil_lt_cons byte (more ++ rest)

theorem flatMap_utf8EncodeChar_lt {first second : List Char} (h : first < second) :
    first.flatMap String.utf8EncodeChar < second.flatMap String.utf8EncodeChar := by
  induction first generalizing second with
  | nil =>
    cases second with
    | nil => exact absurd h (List.lt_irrefl [])
    | cons d second => exact nil_lt_utf8EncodeChar_append d _
  | cons c first ih =>
    cases second with
    | nil => exact absurd h (List.not_lt_nil _)
    | cons d second =>
      rw [List.flatMap_cons, List.flatMap_cons]
      rcases List.cons_lt_cons_iff.mp h with hlt | ⟨rfl, hlt⟩
      · exact utf8EncodeChar_append_lt hlt _ _
      · exact List.append_left_lt (ih hlt)

/-- **The order of strings is the order of their bytes.** Strings are compared by code points. The
encoding is made so that a larger code point has larger bytes, and none is the start of another. -/
theorem lt_iff_bytes_lt {s t : String} : s < t ↔ bytes s < bytes t := by
  have hmono {a b : String} (h : a < b) : bytes a < bytes b := by
    rw [bytes_eq_flatMap, bytes_eq_flatMap]
    exact flatMap_utf8EncodeChar_lt (String.lt_iff_toList_lt.mp h)
  constructor
  · exact hmono
  · intro h
    rcases lt_trichotomy s t with hlt | rfl | hgt
    · exact hlt
    · exact absurd h (List.lt_irrefl _)
    · exact absurd h (List.lt_asymm (hmono hgt))

end Cuesheet.Text
