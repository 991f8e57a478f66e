import Mathlib
import ScriptLang.Proofs.Binary64.Comparison
import ScriptLang.Proofs.Binary64.Rounding
/-!
# Cutting a float to a whole number

The part of a float before its point is a float of the same shift, or a zero. What is cut off is the difference of the
two. A difference of floats is computed on unpacked floats, brought to one exponent, and rounded; but a mantissa that is
no longer than a significand is only moved to another shift. So the part that is cut off is exact.
-/

namespace ScriptLang

namespace Binary64

open Float.Model (Format)
open Float.Model.UnpackedFloat

/-! ### Packing -/

theorem ofModel_pack_unpacked (negative : Bool) {significand shift : Nat} (h : Canonical significand shift) :
    Float.ofModel (Float.Model.pack (unpacked (.finite negative significand shift))) =
      pack negative (shift * leadingOne + significand) := by
  have hunpack := unpack_toModel (pack negative (shift * leadingOne + significand))
  rw [ofFloat_pack_of_canonical negative h] at hunpack
  rw [← hunpack]
  exact Float.ofBits_toBits _

theorem rank?_packed (negative : Bool) {significand shift : Nat} (h : Canonical significand shift) :
    (ofFloat (Float.ofModel (Float.Model.pack (unpacked (.finite negative significand shift))))).rank? =
      some (signed negative (significand * Nat.pow 2 shift)) := by
  rw [ofModel_pack_unpacked negative h, ofFloat_pack_of_canonical negative h, rank?]

theorem rank?_packed_zero (sign : Sign) :
    (ofFloat (Float.ofModel (Float.Model.pack (.zero sign)))).rank? = some 0 := by
  cases sign <;> rfl

/-! ### Rounding what needs no rounding -/

theorem targetExponent_eq (total : Int) : Format.binary64.targetExponent total = max (total - 53) (-1074) :=
  rfl

theorem log2_le_of_lt {significand : Nat} (h : significand < 2 * leadingOne) : significand.log2 ≤ 52 := by
  rcases significand.eq_zero_or_pos with rfl | hpos
  · decide
  · exact Nat.le_of_lt_succ ((Nat.log2_lt hpos.ne').mpr h)

theorem Canonical.shiftToTargetExponent {significand shift : Nat} (h : Canonical significand shift) :
    shiftToTargetExponent Format.binary64 significand (shift - 1074) .exact =
      (⟨significand, false, false⟩, (shift - 1074 : Int)) := by
  have hlog := log2_le_of_lt h.significand_lt
  have hamount : (Format.binary64.targetExponent (Float.Model.totalExponent significand (shift - 1074)) -
      (shift - 1074 : Int)).toNat = 0 := by
    rw [targetExponent_eq, Float.Model.totalExponent]
    omega
  simp only [Float.Model.UnpackedFloat.shiftToTargetExponent, shiftToExponent, hamount, Nat.cast_zero, add_zero]
  rfl

theorem Canonical.roundWithAccuracy {significand shift : Nat} (h : Canonical significand shift) (hpos : 0 < significand)
    (negative : Bool) :
    roundWithAccuracy Format.binary64 (signOf negative) significand (shift - 1074) .exact =
      unpacked (.finite negative significand shift) := by
  have hrounded : ExtendedMantissa.roundedMantissa ⟨significand, false, false⟩ = significand := rfl
  rw [unpacked_finite hpos rfl]
  simp only [Float.Model.UnpackedFloat.roundWithAccuracy, h.shiftToTargetExponent, hrounded]
  rw [dif_neg hpos.ne']

/-- A number whose mantissa is no longer than a significand is not rounded: it is moved to a shift where the significand
has a leading one, or to the smallest. -/
theorem round_exact (negative : Bool) {mantissa shift : Nat} (hpos : 0 < mantissa) (hlt : mantissa < 2 * leadingOne)
    (hshift : shift < 2046) :
    ∃ significand shift', Canonical significand shift' ∧
      significand * Nat.pow 2 shift' = mantissa * Nat.pow 2 shift ∧
      round Format.binary64 (signOf negative) mantissa (shift - 1074) =
        unpacked (.finite negative significand shift') := by
  have hlog := log2_le_of_lt hlt
  -- The places that the mantissa can move up.
  obtain ⟨places, hplaces⟩ : ∃ places, min shift (52 - mantissa.log2) = places := ⟨_, rfl⟩
  have hself := Nat.log2_self_le hpos.ne'
  have hnext := Nat.lt_log2_self (n := mantissa)
  have hcanonical : Canonical (mantissa * 2 ^ places) (shift - places) := by
    constructor
    · calc mantissa * 2 ^ places
        _ < 2 ^ (mantissa.log2 + 1) * 2 ^ places := Nat.mul_lt_mul_of_pos_right hnext (Nat.pow_pos two_pos)
        _ = 2 ^ (mantissa.log2 + 1 + places) := (Nat.pow_add ..).symm
        _ ≤ 2 ^ 53 := Nat.pow_le_pow_right two_pos (by omega)
    · omega
    · intro hleading
      calc 2 ^ 52
        _ = 2 ^ mantissa.log2 * 2 ^ places := by rw [← Nat.pow_add, show mantissa.log2 + places = 52 by omega]
        _ ≤ mantissa * 2 ^ places := Nat.mul_le_mul_right _ hself
  refine ⟨mantissa * 2 ^ places, shift - places, hcanonical, ?_, ?_⟩
  · have hsum : places + (shift - places) = shift := by omega
    rw [Nat.mul_assoc]
    congr 1
    calc 2 ^ places * 2 ^ (shift - places)
      _ = 2 ^ shift := by rw [← Nat.pow_add, hsum]
  · have hamount : ((shift - 1074 : Int) - Format.binary64.targetExponent
        (Float.Model.totalExponent mantissa (shift - 1074))).toNat = places := by
      rw [targetExponent_eq, Float.Model.totalExponent]
      omega
    have hexponent : (shift - 1074 : Int) - places = ((shift - places : Nat) - 1074 : Int) := by omega
    rw [← hcanonical.roundWithAccuracy (Nat.mul_pos hpos (Nat.pow_pos two_pos))]
    simp only [Float.Model.UnpackedFloat.round, decreaseExponent, hamount, Nat.shiftLeft_eq, hexponent]

theorem rank?_normalize (negative : Bool) {magnitude shift : Nat} (hlt : magnitude < 2 * leadingOne)
    (hshift : shift < 2046) :
    (ofFloat (Float.ofModel (Float.Model.pack
        (normalize Format.binary64 (signed negative magnitude) (shift - 1074) .positive)))).rank? =
      some (signed negative (magnitude * Nat.pow 2 shift)) := by
  rcases magnitude.eq_zero_or_pos with rfl | hpos
  · rw [signed_zero, Nat.zero_mul, signed_zero]
    exact rank?_packed_zero .positive
  · have hround : normalize Format.binary64 (signed negative magnitude) (shift - 1074) .positive =
        Float.Model.UnpackedFloat.round Format.binary64 (signOf negative) magnitude (shift - 1074) := by
      cases negative with
      | false =>
          rw [signed_false, Float.Model.UnpackedFloat.normalize, Std.compare_eq_gt.mpr (by omega), Int.toNat_natCast]
          rfl
      | true =>
          rw [signed_true, Float.Model.UnpackedFloat.normalize, Std.compare_eq_lt.mpr (by omega), Int.neg_neg,
            Int.toNat_natCast]
          rfl
    obtain ⟨significand, shift', hcanonical, hunits, hexact⟩ := round_exact negative hpos hlt hshift
    rw [hround, hexact, rank?_packed negative hcanonical, hunits]

/-! ### Differences -/

theorem sub_eq_ofModel (x y : Float) :
    x - y = Float.ofModel (Float.Model.pack (sub Format.binary64 (ofFloat x).unpacked (ofFloat y).unpacked)) := by
  rw [← unpack_toModel, ← unpack_toModel]
  rfl

theorem rank?_sub_zero {x y : Float} {negative negative' : Bool} {significand shift shift' : Nat}
    (hx : ofFloat x = .finite negative significand shift) (hy : ofFloat y = .finite negative' 0 shift') :
    (ofFloat (x - y)).rank? = some (signed negative (significand * Nat.pow 2 shift)) := by
  have hzero : (Binary64.finite negative' 0 shift').unpacked = .zero (signOf negative') := rfl
  rw [sub_eq_ofModel, hx, hy, hzero]
  rcases significand.eq_zero_or_pos with rfl | hpos
  · rw [Nat.zero_mul, signed_zero]
    have hzero' : (Binary64.finite negative 0 shift).unpacked = .zero (signOf negative) := rfl
    rw [hzero', sub]
    split_ifs
    · exact rank?_packed_zero _
    · exact rank?_packed_zero _
  · rw [← rank?_packed negative (ofFloat_eq_finite hx).1, unpacked_finite hpos rfl]
    rfl

/-- Floats of one sign and one shift have a difference that is not rounded. -/
theorem rank?_sub {x y : Float} {negative : Bool} {significand significand' shift : Nat}
    (hx : ofFloat x = .finite negative significand shift) (hy : ofFloat y = .finite negative significand' shift)
    (hpos : 0 < significand') (hle : significand' ≤ significand) :
    (ofFloat (x - y)).rank? = some (signed negative ((significand - significand') * Nat.pow 2 shift)) := by
  obtain ⟨hcanonical, -⟩ := ofFloat_eq_finite hx
  have hdecrease (mantissa : Nat) (exponent : Int) :
      decreaseExponent mantissa exponent exponent = (mantissa, exponent) := by
    simp [decreaseExponent]
  have hdifference : (signOf negative).apply significand - (signOf negative).apply significand' =
      signed negative (significand - significand') := by
    cases negative with
    | false => exact (Int.ofNat_sub hle).symm
    | true =>
        show -(significand : Int) - -(significand' : Int) = -((significand - significand' : Nat) : Int)
        omega
  rw [sub_eq_ofModel, hx, hy, unpacked_finite hpos rfl, unpacked_finite (hpos.trans_le hle) rfl]
  simp only [sub, min_self, hdecrease, hdifference]
  exact rank?_normalize negative ((Nat.sub_le _ _).trans_lt hcanonical.significand_lt) hcanonical.shift_lt

/-! ### Truncation -/

/-- The float without what stands behind its point. A number below one leaves a zero of its sign. -/
def truncate (x : Float) : Float :=
  match ofFloat x with
  | .finite negative significand shift =>
    let one := Nat.pow 2 (1074 - shift)
    let whole := significand / one * one
    pack negative (if whole = 0 then 0 else shift * leadingOne + whole)
  | _ => x

/-- The float as a word. What stands behind the point is cut off, a number beyond the words gives the last one on its
side, and what is no number gives zero. -/
def toWord (x : Float) : Int64 :=
  match ofFloat x with
  | .nan => 0
  | .infinite negative => if negative then Int64.minValue else Int64.maxValue
  | .finite negative significand shift =>
    Int64.ofIntClamp (signed negative (significand * Nat.pow 2 shift / unitsPerOne))

theorem div_mul_pow (significand shift places : Nat) :
    significand / Nat.pow 2 (places - shift) * Nat.pow 2 (places - shift) * Nat.pow 2 shift =
      significand * Nat.pow 2 shift / Nat.pow 2 places * Nat.pow 2 places := by
  simp only [Nat.pow_eq]
  rcases Nat.le_total shift places with hle | hle
  · have hplaces : 2 ^ places = 2 ^ (places - shift) * 2 ^ shift := by rw [← Nat.pow_add, Nat.sub_add_cancel hle]
    rw [hplaces, Nat.mul_div_mul_right _ _ (Nat.pow_pos two_pos), Nat.mul_assoc]
  · have hdvd : 2 ^ places ∣ significand * 2 ^ shift := (Nat.pow_dvd_pow 2 hle).mul_left significand
    rw [Nat.sub_eq_zero_of_le hle, pow_zero, Nat.div_one, mul_one, Nat.div_mul_cancel hdvd]

theorem Canonical.whole {significand shift places : Nat} (h : Canonical significand shift)
    (hwhole : significand / Nat.pow 2 places * Nat.pow 2 places ≠ 0) :
    Canonical (significand / Nat.pow 2 places * Nat.pow 2 places) shift := by
  have hle := Nat.div_mul_le_self significand (Nat.pow 2 places)
  refine ⟨hle.trans_lt h.significand_lt, h.shift_lt, fun hshift => ?_⟩
  have hone : leadingOne = 2 ^ 52 := rfl
  have hplaces : places ≤ 52 := by
    by_contra hlt
    have hpow : 2 ^ 53 ≤ Nat.pow 2 places := Nat.pow_le_pow_right two_pos (by omega)
    have hsmall := h.significand_lt
    apply hwhole
    rw [Nat.div_eq_of_lt (by omega), Nat.zero_mul]
  have hdvd : Nat.pow 2 places ∣ leadingOne := Nat.pow_dvd_pow 2 hplaces
  calc leadingOne
    _ = leadingOne / Nat.pow 2 places * Nat.pow 2 places := (Nat.div_mul_cancel hdvd).symm
    _ ≤ significand / Nat.pow 2 places * Nat.pow 2 places :=
        Nat.mul_le_mul_right _ (Nat.div_le_div_right (h.leading hshift))

section

variable {x : Float} {negative : Bool} {significand shift : Nat}
  (hx : ofFloat x = .finite negative significand shift)

include hx

/-- The whole units that a number has are kept, at the shift that the number has itself unless there are none. -/
theorem ofFloat_truncate :
    ∃ whole shift', ofFloat (truncate x) = .finite negative whole shift' ∧
      whole * Nat.pow 2 shift' = significand * Nat.pow 2 shift / unitsPerOne * unitsPerOne ∧
      (whole = 0 ∨ shift' = shift ∧ whole ≤ significand) := by
  obtain ⟨places, hplaces, hone⟩ : ∃ places, 1074 = places ∧ unitsPerOne = Nat.pow 2 places := by
    refine ⟨1074, rfl, ?_⟩
    delta unitsPerOne
    with_reducible rfl
  have hunits := div_mul_pow significand shift places
  rw [hone, ← hunits]
  simp only [truncate, hx, hplaces]
  split_ifs with hzero
  · have hnothing := ofFloat_pack_of_canonical negative (⟨by decide, by decide, nofun⟩ : Canonical 0 0)
    rw [Nat.zero_mul] at hnothing
    exact ⟨0, 0, hnothing, by rw [hzero, Nat.zero_mul, Nat.zero_mul], .inl rfl⟩
  · have hcanonical := (ofFloat_eq_finite hx).1.whole hzero
    exact ⟨_, shift, ofFloat_pack_of_canonical negative hcanonical, rfl, .inr ⟨rfl, Nat.div_mul_le_self _ _⟩⟩

theorem toWord_truncate :
    toWord (truncate x) = Int64.ofIntClamp (signed negative (significand * Nat.pow 2 shift / unitsPerOne)) := by
  obtain ⟨whole, shift', htruncate, hunits, -⟩ := ofFloat_truncate hx
  simp only [toWord, htruncate]
  rw [hunits, Nat.mul_div_cancel _ (Nat.cast_pos.mp unitsPerOne_pos)]

theorem rank?_fraction :
    (ofFloat (x - truncate x)).rank? = some (signed negative (significand * Nat.pow 2 shift % unitsPerOne)) := by
  obtain ⟨whole, shift', htruncate, hunits, hwhole⟩ := ofFloat_truncate hx
  have hfraction : significand * Nat.pow 2 shift % unitsPerOne =
      significand * Nat.pow 2 shift - whole * Nat.pow 2 shift' := by
    rw [hunits, Nat.mod_eq_sub_div_mul]
  rw [hfraction]
  rcases whole.eq_zero_or_pos with rfl | hpos
  · rw [rank?_sub_zero hx htruncate, Nat.zero_mul, Nat.sub_zero]
  · obtain ⟨rfl, hle⟩ := hwhole.resolve_left hpos.ne'
    rw [rank?_sub hx htruncate hpos hle, Nat.sub_mul]

end

end Binary64

end ScriptLang
