import Mathlib
import ScriptLang.Proofs.Binary64.Bits
/-!
# Comparing floats

The operators on floats are told by unpacked floats, which have a sign, a mantissa and an exponent. Unpacking gives
what the bits denote, with a form of its own for the two zeros. Two unpacked numbers of one sign are compared by their
exponents first and by their mantissas if these agree. This is the order of what they denote, since the significand of
a float has a leading one unless its shift is the smallest. So the operators compare floats as their ranks are compared.
-/

namespace ScriptLang

namespace Binary64

open Float.Model (Format)
open Float.Model.UnpackedFloat

/-! ### Unpacked floats -/

def signOf (negative : Bool) : Sign :=
  if negative then .negative else .positive

/-- What the bits of a float denote, as an unpacked float. -/
def unpacked : Binary64 → Float.Model.UnpackedFloat
  | .nan => .notANumber
  | .infinite negative => .infinity (signOf negative)
  | .finite negative significand shift =>
    if h : 0 < significand then .finite (signOf negative) significand (shift - 1074) h else .zero (signOf negative)

theorem ofBitVec_unpackSign (bits : UInt64) :
    Sign.ofBitVec (@unpackSign Format.binary64 bits.toBitVec) = signOf (bits.toNat / Nat.pow 2 63 % 2 == 1) := by
  have hbit := toNat_unpackSign bits
  generalize @unpackSign Format.binary64 bits.toBitVec = bit at hbit
  rw [show bits.toNat / Nat.pow 2 63 % 2 = bit.toNat from hbit.symm]
  rcases bit.eq_zero_or_eq_one with rfl | rfl
  · rfl
  · rfl

theorem unpackExponent_eq_zero_iff (bits : UInt64) :
    @unpackExponent Format.binary64 bits.toBitVec = 0#11 ↔ bits.toNat / leadingOne % 2048 = 0 := by
  rw [← toNat_unpackExponent, ← BitVec.toNat_inj]
  rfl

theorem toNat_one_append (mantissa : BitVec 52) : (1#1 ++ mantissa).toNat = leadingOne + mantissa.toNat := by
  rw [BitVec.toNat_append, ← Nat.shiftLeft_add_eq_or_of_lt mantissa.isLt]
  rfl

theorem unpacked_finite {negative : Bool} {significand shift : Nat} {exponent : Int} (h : 0 < significand)
    (hexponent : exponent = shift - 1074) :
    (Binary64.finite negative significand shift).unpacked = .finite (signOf negative) significand exponent h := by
  rw [unpacked, dif_pos h, hexponent]

theorem unpack_eq_unpacked (bits : UInt64) :
    unpack Format.binary64 bits.toBitVec = (ofBits bits.toNat).unpacked := by
  have hmantissa := toNat_unpackMantissa bits
  have hexponent := toNat_unpackExponent bits
  have hbias : (Format.binary64.exponentBias : Int) + Format.binary64.mantissaBitsWithoutImplicit = 1075 := rfl
  simp only [unpack, ofBits, ofBitVec_unpackSign, hbias]
  by_cases hones : bits.toNat / leadingOne % 2048 = 2047
  · rw [if_pos ((unpackExponent_eq_ones_iff bits).mpr hones), if_pos hones]
    by_cases hfraction : bits.toNat % leadingOne = 0
    · rw [if_pos ((unpackMantissa_eq_zero_iff bits).mpr hfraction), if_pos hfraction, unpacked]
    · rw [if_neg (mt (unpackMantissa_eq_zero_iff bits).mp hfraction), if_neg hfraction, unpacked]
  rw [if_neg (mt (unpackExponent_eq_ones_iff bits).mp hones), if_neg hones]
  by_cases hzero : bits.toNat / leadingOne % 2048 = 0
  · rw [if_pos ((unpackExponent_eq_zero_iff bits).mpr hzero), if_pos hzero]
    by_cases hfraction : bits.toNat % leadingOne = 0
    · rw [dif_pos ((unpackMantissa_eq_zero_iff bits).mpr hfraction), hfraction]
      rfl
    · rw [← hmantissa, dif_neg (mt (unpackMantissa_eq_zero_iff bits).mp hfraction)]
      exact (unpacked_finite _ (by omega)).symm
  · rw [if_neg (mt (unpackExponent_eq_zero_iff bits).mp hzero), if_neg hzero, ← hmantissa, ← toNat_one_append]
    exact (unpacked_finite _ (by omega)).symm

theorem unpack_toModel (x : Float) : x.toModel.unpack = (ofFloat x).unpacked :=
  unpack_eq_unpacked x.toBits

/-! ### Comparing -/

theorem pow_two_pos (shift : Nat) : 0 < Nat.pow 2 shift :=
  Nat.pow_pos two_pos

/-- A larger shift outweighs every significand. -/
theorem units_lt_of_shift_lt {significand shift significand' shift' : Nat} (h : significand < 2 * leadingOne)
    (h' : leadingOne ≤ significand') (hshift : shift < shift') :
    significand * Nat.pow 2 shift < significand' * Nat.pow 2 shift' :=
  calc significand * Nat.pow 2 shift
    _ < 2 * leadingOne * Nat.pow 2 shift := Nat.mul_lt_mul_of_pos_right h (pow_two_pos shift)
    _ = leadingOne * Nat.pow 2 (shift + 1) := by
        simp only [Nat.pow_eq, Nat.pow_succ]
        ring
    _ ≤ leadingOne * Nat.pow 2 shift' := Nat.mul_le_mul_left _ (Nat.pow_le_pow_right two_pos hshift)
    _ ≤ significand' * Nat.pow 2 shift' := Nat.mul_le_mul_right _ h'

/-- Floats are counted from zero up: by their shifts first, and by their significands if these agree. -/
theorem Canonical.compare_units {significand shift significand' shift' : Nat} (h : Canonical significand shift)
    (h' : Canonical significand' shift') :
    (compare (shift - 1074 : Int) (shift' - 1074)).then (compare significand significand') =
      compare (significand * Nat.pow 2 shift : Nat) (significand' * Nat.pow 2 shift' : Nat) := by
  rcases Nat.lt_trichotomy shift shift' with hlt | rfl | hlt
  · have hunits := units_lt_of_shift_lt h.significand_lt (h'.leading (Nat.zero_lt_of_lt hlt)) hlt
    rw [Std.compare_eq_lt.mpr hunits, Std.compare_eq_lt.mpr (by omega)]
    rfl
  · rw [Std.compare_eq_iff_eq.mpr rfl]
    show compare significand significand' = _
    have hunit := pow_two_pos shift
    generalize Nat.pow 2 shift = unit at hunit
    rcases Nat.lt_trichotomy significand significand' with hlt | rfl | hlt
    · rw [Std.compare_eq_lt.mpr hlt, Std.compare_eq_lt.mpr (Nat.mul_lt_mul_of_pos_right hlt hunit)]
    · rw [Std.compare_eq_iff_eq.mpr rfl, Std.compare_eq_iff_eq.mpr rfl]
    · rw [Std.compare_eq_gt.mpr hlt, Std.compare_eq_gt.mpr (Nat.mul_lt_mul_of_pos_right hlt hunit)]
  · have hunits := units_lt_of_shift_lt h'.significand_lt (h.leading (Nat.zero_lt_of_lt hlt)) hlt
    rw [Std.compare_eq_gt.mpr hunits, Std.compare_eq_gt.mpr (by omega)]
    rfl

theorem signed_false (magnitude : Nat) : signed false magnitude = magnitude :=
  rfl

theorem signed_true (magnitude : Nat) : signed true magnitude = -magnitude :=
  rfl

theorem signed_zero (negative : Bool) : signed negative 0 = 0 := by
  cases negative <;> rfl

theorem compare_signed (negative : Bool) (magnitude magnitude' : Nat) :
    compare (signed negative magnitude) (signed negative magnitude') =
      if negative then (compare magnitude magnitude').swap else compare magnitude magnitude' := by
  rcases Nat.lt_trichotomy magnitude magnitude' with hlt | rfl | hlt
  · rw [Std.compare_eq_lt.mpr hlt]
    cases negative with
    | false => exact Std.compare_eq_lt.mpr (Int.ofNat_lt.mpr hlt)
    | true => exact Std.compare_eq_gt.mpr (Int.neg_lt_neg (Int.ofNat_lt.mpr hlt))
  · cases negative <;> simp
  · rw [Std.compare_eq_gt.mpr hlt]
    cases negative with
    | false => exact Std.compare_eq_gt.mpr (Int.ofNat_lt.mpr hlt)
    | true => exact Std.compare_eq_lt.mpr (Int.neg_lt_neg (Int.ofNat_lt.mpr hlt))

theorem compare_unpacked_finite (negative negative' : Bool) {significand shift significand' shift' : Nat}
    (h : Canonical significand shift) (h' : Canonical significand' shift') :
    (unpacked (.finite negative significand shift)).compare (unpacked (.finite negative' significand' shift')) =
      some (compare (signed negative (significand * Nat.pow 2 shift))
        (signed negative' (significand' * Nat.pow 2 shift'))) := by
  have hunits := h.compare_units h'
  have hpos : 0 < significand * Nat.pow 2 shift ↔ 0 < significand := Nat.mul_pos_iff_of_pos_right (pow_two_pos shift)
  have hpos' : 0 < significand' * Nat.pow 2 shift' ↔ 0 < significand' :=
    Nat.mul_pos_iff_of_pos_right (pow_two_pos shift')
  generalize significand * Nat.pow 2 shift = units at *
  generalize significand' * Nat.pow 2 shift' = units' at *
  have hbelow {a b : Int} (hlt : a < b) : some Ordering.lt = some (compare a b) := by rw [Std.compare_eq_lt.mpr hlt]
  have habove {a b : Int} (hlt : b < a) : some Ordering.gt = some (compare a b) := by rw [Std.compare_eq_gt.mpr hlt]
  rw [unpacked, unpacked]
  split_ifs with hfinite hfinite' hfinite'
  · -- Numbers of one sign are compared by their units, and a sign tells the order of others.
    rw [← hpos] at hfinite
    cases negative <;> cases negative'
    · rw [compare_signed, ← hunits]
      rfl
    · exact habove (by rw [signed_true, signed_false]; omega)
    · exact hbelow (by rw [signed_true, signed_false]; omega)
    · rw [compare_signed, ← hunits]
      rfl
  · obtain rfl : units' = 0 := by omega
    rw [← hpos] at hfinite
    rw [signed_zero]
    cases negative with
    | false => exact habove (by rw [signed_false]; omega)
    | true => exact hbelow (by rw [signed_true]; omega)
  · obtain rfl : units = 0 := by omega
    rw [← hpos'] at hfinite'
    rw [signed_zero]
    cases negative' with
    | false => exact hbelow (by rw [signed_false]; omega)
    | true => exact habove (by rw [signed_true]; omega)
  · obtain rfl : units = 0 := by omega
    obtain rfl : units' = 0 := by omega
    rw [signed_zero, signed_zero]
    rfl

theorem compare_notANumber (unpacked : Float.Model.UnpackedFloat) : unpacked.compare .notANumber = none := by
  cases unpacked <;> rfl

section

variable {reach : Nat} (negative negative' : Bool)

theorem compare_infinity_infinity (h : 0 < reach) :
    Float.Model.UnpackedFloat.compare (.infinity (signOf negative)) (.infinity (signOf negative')) =
      some (compare (signed negative reach) (signed negative' reach)) := by
  cases negative <;> cases negative'
  · rw [Std.compare_eq_iff_eq.mpr rfl]
    rfl
  · rw [Std.compare_eq_gt.mpr (by rw [signed_true, signed_false]; omega)]
    rfl
  · rw [Std.compare_eq_lt.mpr (by rw [signed_true, signed_false]; omega)]
    rfl
  · rw [Std.compare_eq_iff_eq.mpr rfl]
    rfl

theorem compare_infinity_finite {significand : Nat} (shift : Nat) {units : Nat} (h : units < reach) :
    Float.Model.UnpackedFloat.compare (.infinity (signOf negative))
        (unpacked (.finite negative' significand shift)) =
      some (compare (signed negative reach) (signed negative' units)) := by
  rw [unpacked]
  cases negative with
  | false =>
      rw [Std.compare_eq_gt.mpr (by cases negative' <;> simp only [signed_true, signed_false] <;> omega)]
      split_ifs <;> rfl
  | true =>
      rw [Std.compare_eq_lt.mpr (by cases negative' <;> simp only [signed_true, signed_false] <;> omega)]
      split_ifs <;> rfl

theorem compare_finite_infinity {significand : Nat} (shift : Nat) {units : Nat} (h : units < reach) :
    Float.Model.UnpackedFloat.compare (unpacked (.finite negative significand shift))
        (.infinity (signOf negative')) =
      some (compare (signed negative units) (signed negative' reach)) := by
  rw [unpacked]
  cases negative' with
  | false =>
      rw [Std.compare_eq_lt.mpr (by cases negative <;> simp only [signed_true, signed_false] <;> omega)]
      split_ifs <;> rfl
  | true =>
      rw [Std.compare_eq_gt.mpr (by cases negative <;> simp only [signed_true, signed_false] <;> omega)]
      split_ifs <;> rfl

end

theorem compare_unpack (x y : Float) : x.toModel.unpack.compare y.toModel.unpack = compareFloats x y := by
  -- The shift of the infinities is beyond those of all numbers; its power of two is never computed.
  obtain ⟨beyond, hbeyond⟩ : ∃ beyond, 2046 = beyond := ⟨_, rfl⟩
  have hreach {z : Float} {negative : Bool} {significand shift : Nat}
      (hz : ofFloat z = .finite negative significand shift) :
      significand * Nat.pow 2 shift < leadingOne * Nat.pow 2 beyond := by
    obtain ⟨hcanonical, -⟩ := ofFloat_eq_finite hz
    exact units_lt_of_shift_lt hcanonical.significand_lt le_rfl (hbeyond ▸ hcanonical.shift_lt)
  rw [unpack_toModel, unpack_toModel, compareFloats]
  cases hx : ofFloat x with
  | nan => rfl
  | infinite negative =>
      cases hy : ofFloat y with
      | nan => exact compare_notANumber _
      | infinite negative' =>
          rw [rank?, rank?, hbeyond]
          exact compare_infinity_infinity negative negative' (Nat.mul_pos (pow_two_pos 52) (pow_two_pos beyond))
      | finite negative' significand' shift' =>
          rw [rank?, hbeyond]
          exact compare_infinity_finite negative negative' shift' (hreach hy)
  | finite negative significand shift =>
      cases hy : ofFloat y with
      | nan => exact compare_notANumber _
      | infinite negative' =>
          rw [rank?, rank?, hbeyond]
          exact compare_finite_infinity negative negative' shift (hreach hx)
      | finite negative' significand' shift' =>
          exact compare_unpacked_finite negative negative' (ofFloat_eq_finite hx).1 (ofFloat_eq_finite hy).1

end Binary64

open Binary64

theorem beq_eq_compareFloats (x y : Float) : (x == y) = (compareFloats x y == some .eq) := by
  rw [← compare_unpack]
  rfl

section

variable {x y : Float} {left right : Int} (hx : (ofFloat x).rank? = some left) (hy : (ofFloat y).rank? = some right)

include hx hy

theorem compareFloats_of_rank? : compareFloats x y = some (compare left right) := by
  rw [compareFloats, hx, hy]
  rfl

theorem lt_iff_of_rank? : x < y ↔ left < right := by
  rw [← compare_lt_iff_lt, ← Option.some_inj, ← compareFloats_of_rank? hx hy, ← compare_unpack]
  show decide ((x.toModel.unpack.compare y.toModel.unpack == some .lt) = true) = true ↔ _
  simp

theorem le_iff_of_rank? : x ≤ y ↔ left ≤ right := by
  show decide ((x.toModel.unpack.compare y.toModel.unpack).any Ordering.isLE = true) = true ↔ _
  rw [decide_eq_true_iff, compare_unpack, compareFloats_of_rank? hx hy]
  exact Std.isLE_compare

end

end ScriptLang
