import Cuesheet.Expr.Fold
import Mathlib.Algebra.Order.Ring.Int
import Mathlib.Data.Prod.Lex

/-!
# Finite floats

A float is finite unless the bits of its exponent are all set. Three things keep a float finite that
the folding of constants relies on: reading its parts off the bits, changing its sign, and making it
from a whole number of machine size. The last one rounds, but a number below `2 ^ 64` stays so far
from the largest float that the crudest bounds on the rounding are enough.

The comparison of floats is not a linear order, because of those that are not a number. On the
finite ones it is reflexive, transitive and total.
-/

set_option autoImplicit false

namespace Cuesheet.Number

open Float.Model

section

open UnpackedFloat (unpackExponent unpackMantissa unpackExponent_packComponents Sign Accuracy
  ExtendedMantissa)

/-- Zero, or a finite float with a mantissa below `2 ^ a` and an exponent of at most `b`. -/
inductive Within (a : Nat) (b : Int) : UnpackedFloat → Prop
  | zero {s : Sign} : Within a b (.zero s)
  | finite {s : Sign} {m : Nat} {e : Int} {hm : 0 < m} (hsmall : m < 2 ^ a) (hlow : e ≤ b) :
      Within a b (.finite s m e hm)

theorem Within.isFinite {a : Nat} {b : Int} {u : UnpackedFloat} (h : Within a b u) :
    u.isFinite = true := by
  cases h <;> rfl

/-- Bounds are crude, and so most steps have to give some of them away. -/
theorem Within.mono {a a' : Nat} {b b' : Int} {u : UnpackedFloat} (h : Within a b u) (ha : a ≤ a')
    (hb : b ≤ b') : Within a' b' u := by
  cases h with
  | zero => exact .zero
  | finite hsmall hlow =>
    exact .finite (Nat.lt_of_lt_of_le hsmall (Nat.pow_le_pow_right (by omega) ha))
      (Int.le_trans hlow hb)

theorem Within.neg {a : Nat} {b : Int} {u : UnpackedFloat} (h : Within a b u) :
    Within a b u.neg := by
  cases h with
  | zero => exact .zero
  | finite hsmall hlow => exact .finite hsmall hlow

theorem Within.dite {a : Nat} {b : Int} {c : Prop} [Decidable c] {u : c → UnpackedFloat}
    {v : ¬ c → UnpackedFloat} (hu : ∀ h, Within a b (u h)) (hv : ∀ h, Within a b (v h)) :
    Within a b (if h : c then u h else v h) := by
  by_cases h : c
  · rw [dif_pos h]
    exact hu h
  · rw [dif_neg h]
    exact hv h

/-! ## Packing -/

theorem exponentBias_eq : ((Format.binary64.exponentBias : Nat) : Int) = 1023 := rfl

/-- A float whose exponent is not all ones is unpacked to one that is within the format. It is zero,
or it has no implicit bit, or it has one; in the last case the mantissa has its full 53 bits. -/
theorem within_unpack {b : BitVec Format.binary64.numBits} {k : Nat}
    (hexponent : (unpackExponent b).toNat ≤ k) (hk : 1 ≤ k) (hk' : k ≤ 2046) :
    Within 53 (k - 1075) (UnpackedFloat.unpack .binary64 b) := by
  have hne : unpackExponent b ≠ -1#_ := by
    intro h
    have hnat : (unpackExponent b).toNat = 2047 := congrArg BitVec.toNat h
    omega
  unfold UnpackedFloat.unpack
  dsimp only
  rw [if_neg hne, exponentBias_eq]
  refine iteInduction (fun hzero => .dite (fun _ => .zero) fun _ => ?_) fun _ => ?_
  · have hnat : (unpackExponent b).toNat = 0 := congrArg BitVec.toNat hzero
    exact .finite (Nat.lt_trans (unpackMantissa b).isLt (by decide)) (by omega)
  · exact .finite (1#1 ++ unpackMantissa b).isLt (by omega)

/-- All ones in the exponent stand for infinity and for what is not a number, so a finite float has
a smaller exponent. -/
theorem unpackExponent_le_of_isFinite {b : BitVec Format.binary64.numBits}
    (h : (UnpackedFloat.unpack .binary64 b).isFinite = true) : (unpackExponent b).toNat ≤ 2046 := by
  have hlt : (unpackExponent b).toNat < 2 ^ 11 := (unpackExponent b).isLt
  have hmax : (unpackExponent b).toNat ≠ 2047 := by
    intro hnat
    have hones : unpackExponent b = -1#_ := BitVec.eq_of_toNat_eq hnat
    unfold UnpackedFloat.unpack at h
    dsimp only at h
    rw [if_pos hones] at h
    split at h <;> cases h
  omega

/-- Packing a float that is small enough for the format and unpacking it does not make it larger.
Only the bits of the exponent have to be followed, since any mantissa is finite. -/
theorem Within.pack {a : Nat} {b : Int} {u : UnpackedFloat} (h : Within a b u) (hb : 0 ≤ b)
    (hb' : b ≤ 971) :
    Within 53 b (UnpackedFloat.unpack .binary64 (UnpackedFloat.pack .binary64 u)) := by
  have hle : (unpackExponent (UnpackedFloat.pack .binary64 u)).toNat ≤ (b + 1075).toNat := by
    cases h with
    | zero =>
      unfold UnpackedFloat.pack UnpackedFloat.packedZero
      rw [unpackExponent_packComponents]
      exact Nat.zero_le _
    | @finite s m e hm hsmall hlow =>
      have hbiased : (e + Format.binary64.exponentBias +
          Format.binary64.mantissaBitsWithoutImplicit).toNat ≤ (b + 1075).toNat := by
        rw [exponentBias_eq]
        show (e + 1023 + (52 : Nat)).toNat ≤ _
        omega
      unfold UnpackedFloat.pack
      -- Nothing but the bound on the biased exponent is needed from here on.
      generalize (e + Format.binary64.exponentBias +
        Format.binary64.mantissaBitsWithoutImplicit).toNat = biased at hbiased
      dsimp only
      rw [if_neg (by show ¬ 2 ^ 11 ≤ biased + 1; omega)]
      split
      · rw [unpackExponent_packComponents, BitVec.toNat_ofNat]
        exact Nat.le_trans (Nat.mod_le _ _) hbiased
      · rw [unpackExponent_packComponents]
        exact Nat.zero_le _
  refine (within_unpack hle (by omega) (by omega)).mono (Nat.le_refl _) (by omega)

/-! ## Rounding -/

theorem mantissa_shiftRight_le (em : ExtendedMantissa) : ∀ n : Nat,
    (em >>> n).mantissa ≤ em.mantissa
  | 0 => Nat.le_refl _
  | n + 1 => by
    show (em >>> n).mantissa / 2 ≤ em.mantissa
    have := mantissa_shiftRight_le em n
    omega

theorem roundToNearestEven_le (m : Nat) (accuracy : Accuracy) :
    accuracy.roundToNearestEven m ≤ m + 1 := by
  unfold Accuracy.roundToNearestEven
  split <;> omega

/-- A shift to the target exponent drops bits of the mantissa and raises the exponent by no more
than the bits that are too many. -/
theorem shiftToTargetExponent_le {m a : Nat} {e b : Int} (accuracy : Accuracy) (hm : m < 2 ^ a)
    (ha : 53 ≤ a) (he : e ≤ b) (hb : 0 ≤ b) :
    (UnpackedFloat.shiftToTargetExponent .binary64 m e accuracy).1.mantissa ≤ m ∧
      (UnpackedFloat.shiftToTargetExponent .binary64 m e accuracy).2 ≤ a + b - 53 := by
  have hlog : m.log2 < a := by
    by_cases h : m = 0
    · subst h
      show 0 < a
      omega
    · exact (Nat.log2_lt h).mpr hm
  constructor
  · have hle := mantissa_shiftRight_le (ExtendedMantissa.ofMantissaAndAccuracy m accuracy)
    have hsame : (ExtendedMantissa.ofMantissaAndAccuracy m accuracy).mantissa = m := by
      unfold ExtendedMantissa.ofMantissaAndAccuracy
      split <;> rfl
    rw [hsame] at hle
    exact hle _
  · -- The target exponent is at most the one at which 53 bits are left.
    have hmin : Format.binary64.minExponent = -1074 := rfl
    have hbits : ((Format.binary64.mantissaBits : Nat) : Int) = 53 := rfl
    simp only [UnpackedFloat.shiftToTargetExponent, UnpackedFloat.shiftToExponent,
      Format.targetExponent, totalExponent, hmin, hbits]
    omega

/-- Rounding shifts twice, since rounding up may need one more bit. Each of the two can raise the
exponent by as many places as the mantissa is too long, which is where the bound comes from. -/
theorem within_roundWithAccuracy {s : Sign} {m a : Nat} {e b : Int} (accuracy : Accuracy)
    (hm : m < 2 ^ a) (ha : 53 ≤ a) (he : e ≤ b) (hb : 0 ≤ b) :
    Within (a + 1) (2 * a + b - 105)
      (UnpackedFloat.roundWithAccuracy .binary64 s m e accuracy) := by
  obtain ⟨hfirst, hexponent⟩ := shiftToTargetExponent_le accuracy hm ha he hb
  unfold UnpackedFloat.roundWithAccuracy
  generalize UnpackedFloat.shiftToTargetExponent .binary64 m e accuracy = shifted at *
  dsimp only
  have hrounded : shifted.1.roundedMantissa < 2 ^ (a + 1) := by
    have := roundToNearestEven_le shifted.1.mantissa shifted.1.accuracy
    unfold ExtendedMantissa.roundedMantissa
    rw [Nat.pow_succ]
    omega
  obtain ⟨hlast, hexponent⟩ :=
    shiftToTargetExponent_le .exact hrounded (by omega) hexponent (by omega)
  exact .dite (fun _ => .zero) fun _ => .finite (by omega) (by omega)

/-- A machine word rounded to a float. It is far below the limit of the format, so the bounds need
not be sharp. -/
theorem within_round {s : Sign} {m : Nat} (hm : m < 2 ^ 64) :
    Within 117 127 (UnpackedFloat.round .binary64 s m 0) := by
  have hmin : Format.binary64.minExponent = -1074 := rfl
  have hbits : ((Format.binary64.mantissaBits : Nat) : Int) = 53 := rfl
  unfold UnpackedFloat.round UnpackedFloat.decreaseExponent
  dsimp only
  -- The mantissa is moved up by at most 52 places.
  generalize hshift : (0 - Format.binary64.targetExponent (totalExponent m 0)).toNat = shift
  have hle : shift ≤ 52 := by
    simp only [Format.targetExponent, totalExponent, hmin, hbits] at hshift
    omega
  refine within_roundWithAccuracy (a := 116) (b := 0) .exact ?_ (by omega) (by omega) (by omega)
  rw [Nat.shiftLeft_eq]
  calc m * 2 ^ shift < 2 ^ 64 * 2 ^ shift := Nat.mul_lt_mul_of_pos_right hm (Nat.two_pow_pos _)
    _ ≤ 2 ^ 64 * 2 ^ 52 := Nat.mul_le_mul_left _ (Nat.pow_le_pow_right (by omega) hle)
    _ = 2 ^ 116 := by decide

/-- A product has the bits of both factors before it is rounded. -/
theorem Within.mul {a a' : Nat} {b b' : Int} {u v : UnpackedFloat} (hu : Within a b u)
    (hv : Within a' b' v) (ha : 53 ≤ a + a') (hb : 0 ≤ b + b') :
    Within (a + a' + 1) (2 * (a + a') + (b + b') - 105) (UnpackedFloat.mul .binary64 u v) := by
  cases hu with
  | zero => cases hv <;> exact .zero
  | finite hsmall hlow =>
    cases hv with
    | zero => exact .zero
    | finite hsmall' hlow' =>
      refine within_roundWithAccuracy .exact ?_ ha (Int.add_le_add hlow hlow') hb
      rw [Nat.pow_add]
      exact Nat.mul_lt_mul'' hsmall hsmall'

end

/-- How a number becomes a float if it has too many bits to be exact. -/
theorem within_ofScientific {n : Nat} (hn : n ≠ 0) (h : n < 2 ^ 64) :
    Within 118 129 (UnpackedFloat.ofScientific .binary64 n (Int.ofNat 0)) := by
  unfold UnpackedFloat.ofScientific
  rw [dif_neg hn, if_neg (by decide), if_neg ?_, if_pos (by decide)]
  · have hround : ∀ (s : UnpackedFloat.Sign) (m : Nat) (e : Int), m < 2 ^ 117 → e ≤ 0 →
        Within 118 129 (UnpackedFloat.roundWithAccuracy .binary64 s m e .exact) :=
      fun s m e hm he => within_roundWithAccuracy .exact hm (by omega) he (by omega)
    dsimp only [UnpackedFloat.mul]
    refine hround _ _ _ ?_ (by decide)
    show n <<< 53 * 1 < 2 ^ 117
    rw [Nat.shiftLeft_eq]
    omega
  · show ¬ (0 : Int) < -((2 ^ 11 : Int) + n.log2)
    omega

/-! ## Floats -/

/-- A finite float stays finite when its sign changes. -/
theorem isFinite_neg {x : Float} (h : x.isFinite = true) : (-x).isFinite = true := by
  have hwithin := within_unpack (unpackExponent_le_of_isFinite h) (by omega) (by omega)
  exact (hwithin.neg.pack (by omega) (by omega)).isFinite

/-- A machine word is finite as a float. A number that is exact as a float is made in another way
than one that has to be rounded. -/
theorem isFinite_ofNat {n : Nat} (h : n < 2 ^ 64) : (Float.ofNat n).isFinite = true := by
  show (Float.ofScientific n false 0).isFinite = true
  unfold Float.ofScientific
  split
  · -- A small number is made from a machine word and multiplied by one.
    have hword : Within 53 127 n.toUInt64.toFloat.toModel.unpack := by
      refine Within.pack (a := 117) ?_ (by omega) (by omega)
      show Within _ _ (UnpackedFloat.normalize .binary64 (n.toUInt64.toNat : Int) 0 .positive)
      have hlt : n.toUInt64.toNat < 2 ^ 64 := n.toUInt64.toNat_lt
      unfold UnpackedFloat.normalize
      split
      · exact within_round (by omega)
      · exact .zero
      · exact within_round (by omega)
    have hone : Within 53 (-52) (Float.ofBits 0x3FF0000000000000).toModel.unpack := by
      have hunpacked : (Float.ofBits 0x3FF0000000000000).toModel.unpack =
          .finite .positive 4503599627370496 (-52) (by decide) := by rfl
      rw [hunpacked]
      exact .finite (by decide) (by decide)
    exact ((hword.mul hone (by omega) (by omega)).pack (by omega) (by omega)).isFinite
  · rename_i hlarge
    have hpos : n ≠ 0 := by
      rintro rfl
      exact hlarge ⟨by decide, by decide⟩
    exact ((within_ofScientific hpos h).pack (by omega) (by omega)).isFinite

/-- A whole number of machine size is finite as a float. -/
theorem isFinite_ofInt {n : Int} (h : n.natAbs < 2 ^ 64) : (Float.ofInt n).isFinite = true := by
  cases n with
  | ofNat n => exact isFinite_ofNat h
  | negSucc n => exact isFinite_neg (isFinite_ofNat h)

/-- Exactly the finite floats have parts. The definition looks at the bits of the exponent directly,
so the proof is that these are the bits that unpacking looks at. -/
theorem ofFloat?_isSome (x : Float) : (Dyadic.ofFloat? x).isSome = x.isFinite := by
  -- Both look at the same eleven bits.
  have hbits : (@UnpackedFloat.unpackExponent .binary64 x.toModel.toBits.toBitVec).toNat =
      x.toBits.toNat / Nat.pow 2 52 % Nat.pow 2 11 := by
    unfold UnpackedFloat.unpackExponent
    rw [BitVec.toNat_cast, BitVec.extractLsb_toNat, Nat.shiftRight_eq_div_pow]
    rfl
  cases hfinite : x.isFinite with
  | true =>
    have hle := unpackExponent_le_of_isFinite hfinite
    rw [hbits] at hle
    unfold Dyadic.ofFloat?
    dsimp only
    rw [if_neg (by omega)]
    split <;> rfl
  | false =>
    have hmax : x.toBits.toNat / Nat.pow 2 52 % Nat.pow 2 11 = 2047 := by
      by_contra hne
      have hlt : x.toBits.toNat / Nat.pow 2 52 % Nat.pow 2 11 < 2048 := Nat.mod_lt _ (by decide)
      have hwithin := within_unpack (b := x.toModel.toBits.toBitVec) (k := 2046)
        (by rw [hbits]; omega) (by omega) (by omega)
      rw [show x.isFinite = true from hwithin.isFinite] at hfinite
      cases hfinite
    unfold Dyadic.ofFloat?
    dsimp only
    rw [if_pos hmax]
    rfl

/-! ## The order of finite floats -/

section

open UnpackedFloat (Sign)

/-- Finite floats are compared by sign, then by exponent, then by mantissa, the last two the other
way round below zero. -/
def rank : UnpackedFloat → ℤ ×ₗ ℤ ×ₗ ℤ
  | .finite .positive m e _ => toLex (1, toLex (e, (m : ℤ)))
  | .finite .negative m e _ => toLex (-1, toLex (-e, -(m : ℤ)))
  | .zero _ | .infinity _ | .notANumber => toLex (0, toLex (0, 0))

theorem isLE_then_iff (e e' : ℤ) (m m' : ℕ) :
    ((compare e e').then (compare m m')).isLE = true ↔ e < e' ∨ e = e' ∧ m ≤ m' := by
  rcases lt_trichotomy e e' with h | h | h
  · simp [compare_lt_iff_lt.mpr h, h]
  · simp [h, Std.isLE_compare]
  · simp [compare_gt_iff_gt.mpr h, h.ne', h.le]

/-- Comparing unpacked floats is comparing their ranks, one case for each pair of signs. Between two
negative ones the comparison is swapped. -/
theorem unpacked_le_iff {a b : UnpackedFloat} (ha : a.isFinite = true) (hb : b.isFinite = true) :
    a.le b = true ↔ rank a ≤ rank b := by
  cases a with
  | infinity | notANumber => cases ha
  | zero s =>
    cases b with
    | infinity | notANumber => cases hb
    | zero t => exact iff_of_true rfl le_rfl
    | finite t m e _ =>
      cases t <;> dsimp only [UnpackedFloat.le, UnpackedFloat.compare, rank] <;>
        simp [Prod.Lex.toLex_le_toLex]
  | finite s m e _ =>
    cases b with
    | infinity | notANumber => cases hb
    | zero t =>
      cases s <;> dsimp only [UnpackedFloat.le, UnpackedFloat.compare, rank] <;>
        simp [Prod.Lex.toLex_le_toLex]
    | finite t m' e' _ =>
      cases s with
      | positive =>
        cases t <;> dsimp only [UnpackedFloat.le, UnpackedFloat.compare, rank] <;>
          simp [Prod.Lex.toLex_le_toLex, isLE_then_iff]
      | negative =>
        cases t with
        | positive =>
          dsimp only [UnpackedFloat.le, UnpackedFloat.compare, rank]
          simp [Prod.Lex.toLex_le_toLex]
        | negative =>
          -- Below zero the larger size is the smaller number.
          have hswap : ((compare e e').then (compare m m')).swap =
              (compare e' e).then (compare m' m) := by
            rw [Ordering.swap_then, ← Std.OrientedCmp.eq_swap, ← Std.OrientedCmp.eq_swap]
          show ((compare e e').then (compare m m')).swap.isLE = true ↔ _
          rw [hswap, isLE_then_iff]
          dsimp only [rank]
          simp [Prod.Lex.toLex_le_toLex, eq_comm]

end

variable {a b c : Float}

/-- **Finite floats are ordered by their ranks.** The three laws below are those of the
lexicographic order. -/
theorem le_iff_rank (ha : a.isFinite = true) (hb : b.isFinite = true) :
    a ≤ b ↔ rank a.toModel.unpack ≤ rank b.toModel.unpack := by
  rw [← unpacked_le_iff ha hb]
  exact ⟨of_decide_eq_true, decide_eq_true⟩

theorem le_refl_of_isFinite (ha : a.isFinite = true) : a ≤ a :=
  (le_iff_rank ha ha).mpr le_rfl

theorem le_trans_of_isFinite (ha : a.isFinite = true) (hb : b.isFinite = true)
    (hc : c.isFinite = true) (hab : a ≤ b) (hbc : b ≤ c) : a ≤ c := by
  rw [le_iff_rank ha hb] at hab
  rw [le_iff_rank hb hc] at hbc
  exact (le_iff_rank ha hc).mpr (hab.trans hbc)

theorem le_of_not_le_of_isFinite (ha : a.isFinite = true) (hb : b.isFinite = true)
    (h : ¬ a ≤ b) : b ≤ a := by
  rw [le_iff_rank ha hb] at h
  exact (le_iff_rank hb ha).mpr (le_of_not_ge h)

end Cuesheet.Number

namespace Cuesheet.Json

/-- A number has a value exactly if it is finite. -/
theorem isSome_ofNumber? (x : Float) : (ofNumber? x).isSome = x.isFinite := by
  rw [ofNumber?, Option.isSome_map, Number.ofFloat?_isSome]

/-- A float becomes a whole number only below the limit up to which floats are exact. -/
theorem natAbs_lt_of_ofNumber? {x : Float} {n : Int} (h : ofNumber? x = some (.int n)) :
    n.natAbs < exactLimit := by
  obtain ⟨d, -, h⟩ := Option.map_eq_some_iff.mp h
  split at h
  · rename_i hwhole
    cases h
    simp only [Bool.and_eq_true, decide_eq_true_eq] at hwhole
    exact hwhole.2
  · cases h

end Cuesheet.Json
