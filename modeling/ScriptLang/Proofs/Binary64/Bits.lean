import Mathlib
import ScriptLang.Binary64.Nearest
/-!
# Floats and their bits

A float is kept as the 64 bits that encode it, with one encoding for all that is no number. Splitting the bits and
putting them together again is therefore the identity on floats, and the bits of a finite float without its sign
are `shift · 2 ^ 52 + significand`: they count the floats from zero up.
-/

namespace ScriptLang

namespace Binary64

open Float.Model (Format)
open Float.Model.UnpackedFloat

/-! ### The three fields -/

theorem toNat_unpackSign (bits : UInt64) :
    (@unpackSign Format.binary64 bits.toBitVec).toNat = bits.toNat / 2 ^ 63 % 2 := by
  simp [unpackSign, Nat.shiftRight_eq_div_pow]

theorem toNat_unpackExponent (bits : UInt64) :
    (@unpackExponent Format.binary64 bits.toBitVec).toNat = bits.toNat / leadingOne % 2048 := by
  simp [unpackExponent, leadingOne, Nat.shiftRight_eq_div_pow]

theorem toNat_unpackMantissa (bits : UInt64) :
    (@unpackMantissa Format.binary64 bits.toBitVec).toNat = bits.toNat % leadingOne := by
  simp [unpackMantissa, leadingOne]

theorem unpackExponent_eq_ones_iff (bits : UInt64) :
    @unpackExponent Format.binary64 bits.toBitVec = -1#11 ↔ bits.toNat / leadingOne % 2048 = 2047 := by
  rw [← toNat_unpackExponent, ← BitVec.toNat_inj]
  rfl

theorem unpackMantissa_eq_zero_iff (bits : UInt64) :
    @unpackMantissa Format.binary64 bits.toBitVec = 0#52 ↔ bits.toNat % leadingOne = 0 := by
  rw [← toNat_unpackMantissa, ← BitVec.toNat_inj]
  rfl

/-! ### Floats as bits -/

theorem ofBits_eq_nan_iff (bits : Nat) :
    ofBits bits = .nan ↔ bits / leadingOne % 2048 = 2047 ∧ bits % leadingOne ≠ 0 := by
  unfold ofBits
  dsimp only
  split_ifs <;> simp_all

/-- An exponent of ones alone, with a fraction behind it. -/
theorem isNaN_iff (x : Float) :
    x.isNaN = true ↔ x.toBits.toNat / leadingOne % 2048 = 2047 ∧ x.toBits.toNat % leadingOne ≠ 0 := by
  rw [← unpackExponent_eq_ones_iff, Ne, ← unpackMantissa_eq_zero_iff]
  show (unpack Format.binary64 x.toBits.toBitVec).isNaN = true ↔ _
  rw [unpack]
  dsimp only
  split_ifs <;> simp_all [Float.Model.UnpackedFloat.isNaN]

/-- There is one float that is no number. -/
theorem eq_of_isNaN {x y : Float} (hx : x.isNaN = true) (hy : y.isNaN = true) : x = y := by
  have hpacked {z : Float} (hz : z.isNaN = true) : z.toBits.toBitVec = packedNaN Format.binary64 := by
    rw [isNaN_iff, ← unpackExponent_eq_ones_iff, Ne, ← unpackMantissa_eq_zero_iff] at hz
    obtain ⟨⟨bits, hvalid⟩⟩ := z
    exact hvalid.eq_packedNaN hz.1 hz.2
  rw [← Float.ofBits_toBits x, ← Float.ofBits_toBits y, UInt64.toBitVec_inj.mp ((hpacked hx).trans (hpacked hy).symm)]

theorem toBits_ofBits {bits : UInt64} (h : ofBits bits.toNat ≠ .nan) : (Float.ofBits bits).toBits = bits := by
  have hvalid : Format.binary64.Valid bits.toBitVec := by
    constructor
    intro hones hfraction
    rw [unpackExponent_eq_ones_iff] at hones
    rw [Ne, unpackMantissa_eq_zero_iff] at hfraction
    exact absurd ((ofBits_eq_nan_iff _).mpr ⟨hones, hfraction⟩) h
  exact congrArg UInt64.ofBitVec (pack_unpack_of_valid hvalid)

/-! ### Finite floats -/

/-- The significand and the shift that the bits of a finite float give: at most 53 bits, and a leading one unless
the shift is the smallest. -/
structure Canonical (significand shift : Nat) : Prop where
  significand_lt : significand < 2 * leadingOne
  shift_lt : shift < 2046
  leading : 0 < shift → leadingOne ≤ significand

theorem Canonical.shift_eq_zero {shift : Nat} (h : Canonical 0 shift) : shift = 0 := by
  by_contra hshift
  exact absurd (h.leading (Nat.pos_of_ne_zero hshift)) (by decide)

theorem Canonical.lt_infinityBits {significand shift : Nat} (h : Canonical significand shift) :
    shift * leadingOne + significand < infinityBits := by
  have hshift : shift * leadingOne ≤ 2045 * leadingOne := Nat.mul_le_mul_right _ (Nat.le_of_lt_succ h.shift_lt)
  have hsignificand := h.significand_lt
  rw [infinityBits]
  omega

theorem ofBits_eq_finite {bits : Nat} (hbits : bits < 2 ^ 64) {negative : Bool} {significand shift : Nat}
    (h : ofBits bits = .finite negative significand shift) :
    Canonical significand shift ∧
      bits = if negative then Nat.pow 2 63 + (shift * leadingOne + significand)
        else shift * leadingOne + significand := by
  have hone : leadingOne = 4503599627370496 := rfl
  have hsign : Nat.pow 2 63 = 9223372036854775808 := rfl
  have hfraction := Nat.mod_lt bits (show 4503599627370496 > 0 by decide)
  simp only [ofBits, hone, hsign] at h
  rw [hone, hsign]
  split_ifs at h with hones hnan hzero
  · obtain ⟨rfl, rfl, rfl⟩ := finite.inj h
    refine ⟨⟨by omega, by decide, nofun⟩, ?_⟩
    simp only [beq_iff_eq]
    split_ifs <;> omega
  · obtain ⟨rfl, rfl, rfl⟩ := finite.inj h
    refine ⟨⟨by omega, by omega, fun _ => Nat.le_add_right _ _⟩, ?_⟩
    simp only [beq_iff_eq]
    split_ifs <;> omega

theorem exists_ofBits_eq_finite_iff (bits : Nat) :
    (∃ negative significand shift, ofBits bits = .finite negative significand shift) ↔
      bits / leadingOne % 2048 ≠ 2047 := by
  unfold ofBits
  dsimp only
  split_ifs <;> simp_all

theorem isFinite_iff (x : Float) :
    x.isFinite = true ↔ ∃ negative significand shift, ofFloat x = .finite negative significand shift := by
  rw [ofFloat, exists_ofBits_eq_finite_iff, Ne, ← unpackExponent_eq_ones_iff]
  show (unpack Format.binary64 x.toBits.toBitVec).isFinite = true ↔ _
  rw [unpack]
  dsimp only
  split_ifs <;> simp_all [Float.Model.UnpackedFloat.isFinite]

/-- A finite float is determined by what its bits denote. -/
theorem ofFloat_eq_finite {x : Float} {negative : Bool} {significand shift : Nat}
    (h : ofFloat x = .finite negative significand shift) :
    Canonical significand shift ∧ x = pack negative (shift * leadingOne + significand) := by
  obtain ⟨hcanonical, hbits⟩ := ofBits_eq_finite x.toBits.toNat_lt h
  refine ⟨hcanonical, ?_⟩
  rw [pack, ← hbits, UInt64.ofNat_toNat, Float.ofBits_toBits]

theorem eq_pack_infinityBits {x : Float} {negative : Bool} (h : ofFloat x = .infinite negative) :
    x = pack negative infinityBits := by
  have hone : leadingOne = 4503599627370496 := rfl
  have hsign : Nat.pow 2 63 = 9223372036854775808 := rfl
  have hlt := x.toBits.toNat_lt
  simp only [ofFloat, ofBits, hone, hsign] at h
  split_ifs at h with hones hzero hnone
  obtain rfl := infinite.inj h
  have hbits : x.toBits.toNat =
      if (x.toBits.toNat / 9223372036854775808 % 2 == 1) = true then Nat.pow 2 63 + infinityBits else infinityBits := by
    simp only [beq_iff_eq, infinityBits, hone, hsign]
    split_ifs <;> omega
  rw [pack, ← hbits, UInt64.ofNat_toNat, Float.ofBits_toBits]

/-- The bits up to those of infinity are the floats that are not negative. -/
theorem ofFloat_pack {bits : Nat} (h : bits ≤ infinityBits) :
    (∃ significand shift, ofFloat (pack false bits) = .finite false significand shift) ∨
      ofFloat (pack false bits) = .infinite false := by
  have hone : leadingOne = 4503599627370496 := rfl
  have hsign : Nat.pow 2 63 = 9223372036854775808 := rfl
  rw [infinityBits, hone] at h
  have hword : (UInt64.ofNat bits).toNat = bits := UInt64.toNat_ofNat_of_lt' (h.trans_lt (by decide))
  have hnan : ofBits bits ≠ .nan := by
    rw [Ne, ofBits_eq_nan_iff, hone]
    omega
  have hfloat : ofFloat (pack false bits) = ofBits bits := by
    rw [ofFloat, pack, if_neg (by decide), toBits_ofBits (by rwa [hword]), hword]
  have hpositive : (bits / Nat.pow 2 63 % 2 == 1) = false := by
    rw [hsign, beq_eq_false_iff_ne]
    omega
  rw [hfloat]
  simp only [ofBits, hpositive] at hnan ⊢
  split_ifs at hnan ⊢ <;> simp_all

/-- The 63 bits behind the sign give the significand and the shift. -/
theorem ofBits_of_canonical {bits significand shift : Nat} (h : Canonical significand shift)
    (hbits : bits % 2 ^ 63 = shift * leadingOne + significand) :
    ofBits bits = .finite (bits / Nat.pow 2 63 % 2 == 1) significand shift := by
  have hone : leadingOne = 4503599627370496 := rfl
  obtain ⟨hsignificand, hshift, hleading⟩ := h
  rw [hone] at hbits hsignificand hleading
  simp only [ofBits, hone]
  rw [if_neg (by omega)]
  split_ifs with hzero
  · congr 1 <;> omega
  · congr 1 <;> omega

/-- The word that a float is packed in: the sign in front of the bits. -/
theorem word_of_pack (negative : Bool) {bits : Nat} (h : bits < infinityBits) :
    ∃ word : UInt64, pack negative bits = Float.ofBits word ∧
      word.toNat % 2 ^ 63 = bits ∧ word.toNat / 2 ^ 63 = negative.toNat := by
  have hone : leadingOne = 4503599627370496 := rfl
  have hsign : Nat.pow 2 63 = 9223372036854775808 := rfl
  rw [infinityBits, hone] at h
  refine ⟨_, rfl, ?_⟩
  rw [UInt64.toNat_ofNat', hsign]
  cases negative with
  | false =>
      simp only [Bool.false_eq_true, if_false, Bool.toNat_false]
      omega
  | true =>
      simp only [if_true, Bool.toNat_true]
      omega

/-- Every significand and shift in their range are those of two floats, one of each sign. -/
theorem ofFloat_pack_of_canonical (negative : Bool) {significand shift : Nat} (h : Canonical significand shift) :
    ofFloat (pack negative (shift * leadingOne + significand)) = .finite negative significand shift := by
  obtain ⟨word, hpack, hrest, hsign⟩ := word_of_pack negative h.lt_infinityBits
  have hnegative : (word.toNat / Nat.pow 2 63 % 2 == 1) = negative := by
    rw [show word.toNat / Nat.pow 2 63 = negative.toNat from hsign]
    cases negative <;> rfl
  have hfinite : ofBits word.toNat = .finite negative significand shift := by
    rw [ofBits_of_canonical h hrest, hnegative]
  have hnan : ofBits word.toNat ≠ .nan := hfinite ▸ Binary64.noConfusion
  rw [hpack, ofFloat, toBits_ofBits hnan, hfinite]

/-! ### Signs -/

theorem ofBitVec_of_ne {bit other : BitVec 1} (h : other ≠ bit) : Sign.ofBitVec other = -Sign.ofBitVec bit := by
  rcases bit.eq_zero_or_eq_one with rfl | rfl
  · rw [other.eq_zero_or_eq_one.resolve_left h]
    rfl
  · rw [other.eq_zero_or_eq_one.resolve_right h]
    rfl

theorem unpack_neg {bits other : UInt64} (hrest : other.toNat % 2 ^ 63 = bits.toNat % 2 ^ 63)
    (hsign : other.toNat / 2 ^ 63 ≠ bits.toNat / 2 ^ 63) :
    unpack Format.binary64 other.toBitVec = (unpack Format.binary64 bits.toBitVec).neg := by
  have hone : leadingOne = 4503599627370496 := rfl
  have hlt := bits.toNat_lt
  have hltOther := other.toNat_lt
  have hexponent : @unpackExponent Format.binary64 other.toBitVec = @unpackExponent Format.binary64 bits.toBitVec := by
    apply BitVec.eq_of_toNat_eq
    rw [toNat_unpackExponent, toNat_unpackExponent, hone]
    omega
  have hmantissa : @unpackMantissa Format.binary64 other.toBitVec = @unpackMantissa Format.binary64 bits.toBitVec := by
    apply BitVec.eq_of_toNat_eq
    rw [toNat_unpackMantissa, toNat_unpackMantissa, hone]
    omega
  have hneg : Sign.ofBitVec (@unpackSign Format.binary64 other.toBitVec) =
      -Sign.ofBitVec (@unpackSign Format.binary64 bits.toBitVec) := by
    apply ofBitVec_of_ne
    intro heq
    have htoNat := congrArg BitVec.toNat heq
    rw [toNat_unpackSign, toNat_unpackSign] at htoNat
    omega
  rw [unpack, unpack]
  simp only [hexponent, hmantissa, hneg]
  split_ifs <;> rfl

/-- Bits that differ in the sign alone are those of a float and of its negative. -/
theorem neg_ofBits {bits other : UInt64} (hnan : ofBits bits.toNat ≠ .nan)
    (hrest : other.toNat % 2 ^ 63 = bits.toNat % 2 ^ 63) (hsign : other.toNat / 2 ^ 63 ≠ bits.toNat / 2 ^ 63) :
    -Float.ofBits bits = Float.ofBits other := by
  have hunpack : (Float.ofBits bits).toModel.unpack.neg = unpack Format.binary64 other.toBitVec := by
    rw [unpack_neg hrest hsign]
    show (unpack Format.binary64 (Float.ofBits bits).toBits.toBitVec).neg = _
    rw [toBits_ofBits hnan]
  exact congrArg (fun unpacked => Float.ofModel (Float.Model.pack unpacked)) hunpack

theorem neg_pack {bits : Nat} (h : bits < infinityBits) : -pack false bits = pack true bits := by
  obtain ⟨word, hpack, hrest, hsign⟩ := word_of_pack false h
  obtain ⟨other, hpackOther, hrestOther, hsignOther⟩ := word_of_pack true h
  rw [hpack, hpackOther]
  apply neg_ofBits
  · have hone : leadingOne = 4503599627370496 := rfl
    rw [infinityBits] at h
    rw [Bool.toNat_false] at hsign
    rw [Ne, ofBits_eq_nan_iff, hone]
    omega
  · rw [hrest, hrestOther]
  · rw [hsign, hsignOther]
    decide

end Binary64

end ScriptLang
