import Mathlib
import ScriptLang.Proofs.Binary64.Rounding
/-!
# The number that a float denotes

A word of 64 bits is split into its sign, exponent and fraction, and denotes a rational number or an infinity unless it
marks what is no number. The units of `Binary64` count the same number.
-/

namespace ScriptLang

namespace Binary64

/-! ### The number that a word denotes -/

/-- The number with the given sign. -/
def withSign (negative : Bool) (magnitude : ℚ) : ℚ :=
  if negative then -magnitude else magnitude

/-- The number that 64 bits denote. The fraction stands behind a point, and a one before it unless the exponent is
zero; an exponent of ones alone marks the infinities and what is no number. -/
def denoted? (bits : UInt64) : Option (WithBotTop ℚ) :=
  let negative := bits.toBitVec.msb
  let exponent := (bits.toBitVec.extractLsb' 52 11).toNat
  let fraction := (bits.toBitVec.extractLsb' 0 52).toNat
  if exponent = 2047 then
    if fraction = 0 then some (if negative then ⊥ else ⊤) else none
  else if exponent = 0 then
    some (withSign negative (fraction / 2 ^ 52 * 2 ^ (-1022 : Int)) : ℚ)
  else
    some (withSign negative ((1 + fraction / 2 ^ 52) * 2 ^ (exponent - 1023 : Int)) : ℚ)

/-- The number that a float denotes, by its significand and its shift. -/
def value? : Binary64 → Option (WithBotTop ℚ)
  | .nan => none
  | .infinite negative => some (if negative then ⊥ else ⊤)
  | .finite negative significand shift =>
    some (withSign negative (significand * 2 ^ shift / unitsPerOne) : ℚ)

theorem value?_eq_none_iff {x : Binary64} : x.value? = none ↔ x = .nan := by
  cases x with
  | nan => exact iff_of_true rfl rfl
  | infinite | finite => exact iff_of_false nofun nofun

theorem toNat_exponent (bits : UInt64) :
    (bits.toBitVec.extractLsb' 52 11).toNat = bits.toNat / leadingOne % 2048 := by
  simp [leadingOne, Nat.shiftRight_eq_div_pow]

theorem toNat_fraction (bits : UInt64) : (bits.toBitVec.extractLsb' 0 52).toNat = bits.toNat % leadingOne := by
  simp [leadingOne]

theorem msb_eq (bits : UInt64) : bits.toBitVec.msb = (bits.toNat / Nat.pow 2 63 % 2 == 1) := by
  have hlt := bits.toNat_lt
  rw [BitVec.msb_eq_decide, Bool.eq_iff_iff, decide_eq_true_eq, beq_iff_eq]
  show 2 ^ 63 ≤ bits.toNat ↔ bits.toNat / 2 ^ 63 % 2 = 1
  omega

/-- Units of the smallest positive float, moved to the exponent of the point. -/
theorem two_pow_div_unitsPerOne (shift : Nat) : (2 ^ shift / unitsPerOne : ℚ) = 2 ^ (shift - 1074 : Int) := by
  rw [cast_unitsPerOne, zpow_sub₀ two_ne_zero, zpow_natCast]
  rfl

theorem denoted?_eq_value? (bits : UInt64) : denoted? bits = (ofBits bits.toNat).value? := by
  have hscale (exponent : Int) : (2 : ℚ) ^ exponent = 2 ^ 52 * 2 ^ (exponent - 52) := by
    rw [← zpow_natCast, ← zpow_add₀ two_ne_zero]
    congr 1
    push_cast
    ring
  unfold denoted? ofBits
  simp only [toNat_exponent, toNat_fraction, msb_eq]
  generalize bits.toNat / leadingOne % 2048 = exponent
  generalize bits.toNat % leadingOne = fraction
  generalize (bits.toNat / Nat.pow 2 63 % 2 == 1) = negative
  by_cases hones : exponent = 2047
  · rw [if_pos hones, if_pos hones]
    split_ifs <;> simp_all [value?]
  · rw [if_neg hones, if_neg hones]
    split_ifs with hzero
    · rw [value?, mul_div_assoc, two_pow_div_unitsPerOne, hscale (-1022), ← mul_assoc,
        div_mul_cancel₀ _ (by norm_num)]
      rfl
    · have hshift : (exponent - 1023 : Int) - 52 = (exponent - 1 : Nat) - 1074 := by omega
      rw [value?, mul_div_assoc, two_pow_div_unitsPerOne, hscale (exponent - 1023), hshift, ← mul_assoc, add_mul,
        div_mul_cancel₀ _ (by norm_num), one_mul, ← cast_leadingOne, ← Nat.cast_add]

open Float.Model (Format) in
open Float.Model.UnpackedFloat in
theorem ofFloat_ofBits_of_nan {bits : UInt64} (h : ofBits bits.toNat = .nan) : ofFloat (Float.ofBits bits) = .nan := by
  obtain ⟨hones, hfraction⟩ := (ofBits_eq_nan_iff _).mp h
  have hunpack : unpack Format.binary64 bits.toBitVec = .notANumber := by
    rw [← unpackExponent_eq_ones_iff] at hones
    rw [Ne, ← unpackMantissa_eq_zero_iff] at hfraction
    rw [unpack]
    exact (if_pos hones).trans (if_neg hfraction)
  have hbits : (Float.ofBits bits).toBits =
      UInt64.ofBitVec (Float.Model.UnpackedFloat.pack Format.binary64 (unpack Format.binary64 bits.toBitVec)) := rfl
  rw [ofFloat, hbits, hunpack]
  rfl

/-- A float denotes what the bits that it is made of do. -/
theorem ofFloat_ofBits (bits : UInt64) : ofFloat (Float.ofBits bits) = ofBits bits.toNat := by
  by_cases hnan : ofBits bits.toNat = .nan
  · rw [ofFloat_ofBits_of_nan hnan, hnan]
  · rw [ofFloat, toBits_ofBits hnan]

end Binary64

end ScriptLang
