import Mathlib
import ScriptLang.Decimal.Read
import ScriptLang.Proofs.Binary64.Bits
/-!
# Which numbers round to a float

The numbers that round to a finite float reach half way to its neighbours, both ends included if its significand is
even. `Rounds` says this of a number of units, so that it does not matter how the number is written, and the bits
found for a ratio and the float read from a numeral are then those of the float that it rounds to.
-/

namespace ScriptLang

/-- The whole number is the nearest one, and the even one of two that are equally near. -/
structure Nearest (n : Nat) (x : ℚ) : Prop where
  lower : (n : ℚ) - 1 / 2 ≤ x
  upper : x ≤ n + 1 / 2
  odd : n % 2 = 1 → (n : ℚ) - 1 / 2 < x ∧ x < n + 1 / 2

theorem div_eq_quotient_add_fraction (numerator : Nat) {denominator : Nat} (h : 0 < denominator) :
    (numerator / denominator : ℚ) =
      (numerator / denominator : Nat) + (numerator % denominator : Nat) / (denominator : ℚ) := by
  have hpos : (denominator : ℚ) ≠ 0 := by exact_mod_cast h.ne'
  rw [div_eq_iff hpos, add_mul, div_mul_cancel₀ _ hpos, mul_comm]
  exact_mod_cast (Nat.div_add_mod numerator denominator).symm

theorem roundDiv_eq {n numerator denominator : Nat} (hdenominator : 0 < denominator)
    (h : Nearest n (numerator / denominator)) : roundDiv numerator denominator = n := by
  have hpos : (0 : ℚ) < denominator := by exact_mod_cast hdenominator
  obtain ⟨hlower, hupper, hodd⟩ := h
  rw [div_eq_quotient_add_fraction numerator hdenominator] at hlower hupper hodd
  have hrest := Nat.mod_lt numerator hdenominator
  unfold roundDiv
  dsimp only
  generalize numerator / denominator = quotient at *
  generalize numerator % denominator = rest at *
  have hzero : (0 : ℚ) ≤ rest / denominator := by positivity
  have hone : (rest / denominator : ℚ) < 1 := by
    rw [div_lt_one hpos]
    exact_mod_cast hrest
  split
  next hlt =>
    have hhalf : (rest / denominator : ℚ) < 1 / 2 := by
      rw [div_lt_div_iff₀ hpos two_pos, one_mul, mul_comm]
      exact_mod_cast Nat.compare_eq_lt.mp hlt
    have hle : (n : ℚ) < quotient + 1 := by linarith
    have hge : (quotient : ℚ) < n + 1 := by linarith
    norm_cast at hle hge
    omega
  next heq =>
    have hhalf : (rest / denominator : ℚ) = 1 / 2 := by
      rw [div_eq_div_iff hpos.ne' two_ne_zero, one_mul, mul_comm]
      exact_mod_cast Nat.compare_eq_eq.mp heq
    rw [hhalf] at hlower hupper hodd
    have hle : (n : ℚ) ≤ quotient + 1 := by linarith
    have hge : (quotient : ℚ) ≤ n := by linarith
    norm_cast at hle hge
    -- An odd number is not reached at its ends, so of the two neighbours it is the even one.
    have heven : n % 2 ≠ 1 := by
      intro hn
      obtain ⟨hleft, hright⟩ := hodd hn
      have hgt : (n : ℚ) < quotient + 1 := by linarith
      have hlt : (quotient : ℚ) < n := by linarith
      norm_cast at hgt hlt
      omega
    omega
  next hgt =>
    have hhalf : 1 / 2 < (rest / denominator : ℚ) := by
      rw [div_lt_div_iff₀ two_pos hpos, one_mul, mul_comm _ (2 : ℚ)]
      exact_mod_cast Nat.compare_eq_gt.mp hgt
    have hle : (n : ℚ) < quotient + 2 := by linarith
    have hge : (quotient : ℚ) < n := by linarith
    norm_cast at hle hge
    omega

namespace Binary64

theorem cast_leadingOne : (leadingOne : ℚ) = 2 ^ 52 := by
  norm_num [leadingOne]

theorem cast_unitsPerOne : (unitsPerOne : ℚ) = 2 ^ 1074 := by
  unfold unitsPerOne
  generalize 1074 = exponent
  simp

theorem unitsPerOne_pos : (0 : ℚ) < unitsPerOne := by
  rw [cast_unitsPerOne]
  exact pow_pos two_pos _

/-- The number of units rounds to the float: it is nearest to the significand, in steps of the float's own size.
Below a power of two the floats are twice as dense, so there the reach is half as far. -/
structure Rounds (significand shift : Nat) (units : ℚ) : Prop extends Nearest significand (units / 2 ^ shift) where
  narrow : significand = leadingOne → 0 < shift → (significand : ℚ) - 1 / 4 ≤ units / 2 ^ shift

section

variable {significand shift : Nat} {units distance : ℚ}

theorem Rounds.of_below (hunits : units / 2 ^ shift = significand - distance) (hzero : 0 ≤ distance)
    (hhalf : distance ≤ 1 / 2) (hodd : significand % 2 = 1 → distance < 1 / 2)
    (hnarrow : significand = leadingOne → 0 < shift → distance ≤ 1 / 4) : Rounds significand shift units := by
  refine ⟨⟨?_, ?_, ?_⟩, ?_⟩
  · linarith
  · linarith
  · intro h
    have := hodd h
    constructor <;> linarith
  · intro hone hshift
    have := hnarrow hone hshift
    linarith

theorem Rounds.of_above (hunits : units / 2 ^ shift = significand + distance) (hzero : 0 ≤ distance)
    (hhalf : distance ≤ 1 / 2) (hodd : significand % 2 = 1 → distance < 1 / 2) :
    Rounds significand shift units := by
  refine ⟨⟨?_, ?_, ?_⟩, ?_⟩
  · linarith
  · linarith
  · intro h
    have := hodd h
    constructor <;> linarith
  · intro _ _
    linarith

end

theorem log2_floor_sub {units : ℚ} {shift : Nat} (hlower : 0 < shift → leadingOne * 2 ^ shift ≤ units)
    (hupper : units < 2 * leadingOne * 2 ^ shift) : ⌊units⌋₊.log2 - 52 = shift := by
  rw [cast_leadingOne] at hlower hupper
  have hlt : ⌊units⌋₊ < 2 ^ (52 + shift + 1) := by
    rw [Nat.floor_lt' (by positivity)]
    push_cast
    calc units < 2 * 2 ^ 52 * 2 ^ shift := hupper
      _ = 2 ^ (52 + shift + 1) := by ring
  by_cases hzero : ⌊units⌋₊ = 0
  · have hshift : ¬0 < shift := by
      intro hpos
      have hle : (1 : ℚ) ≤ units := by
        refine le_trans ?_ (hlower hpos)
        rw [← pow_add]
        exact one_le_pow₀ one_le_two
      have hfloor := (Nat.one_le_floor_iff units).mpr hle
      omega
    rw [hzero, Nat.log2_zero]
    omega
  · rcases Nat.eq_zero_or_pos shift with rfl | hpos
    · have hlog := (Nat.log2_lt hzero).mpr hlt
      omega
    · have hle : 2 ^ (52 + shift) ≤ ⌊units⌋₊ := by
        rw [Nat.le_floor_iff' (by positivity)]
        push_cast
        rw [pow_add]
        exact hlower hpos
      rw [(Nat.log2_eq_iff hzero).mpr ⟨hle, hlt⟩]
      omega

/-- The bits of a number with at most 53 bits before its point, at the given shift. -/
theorem nearestBits_of_shift {numerator denominator shift rounded : Nat} {units : ℚ}
    (hdenominator : 0 < denominator) (hunits : units = (numerator * unitsPerOne : Nat) / denominator)
    (hlower : 0 < shift → leadingOne * 2 ^ shift ≤ units) (hupper : units < 2 * leadingOne * 2 ^ shift)
    (hrounded : Nearest rounded (units / 2 ^ shift)) :
    nearestBits numerator denominator = min (shift * leadingOne + rounded) infinityBits := by
  have hshift : (numerator * unitsPerOne / denominator).log2 - 52 = shift := by
    rw [← Nat.floor_div_eq_div (K := ℚ), ← hunits]
    exact log2_floor_sub hlower hupper
  have hround : roundDiv (numerator * unitsPerOne) (denominator * Nat.pow 2 shift) = rounded := by
    apply roundDiv_eq (Nat.mul_pos hdenominator (Nat.pow_pos (by decide)))
    rw [hunits, div_div] at hrounded
    exact_mod_cast hrounded
  rw [nearestBits, hshift, hround]

/-- Just below a power of two a number is rounded on the finer grid there, and the quotient carries. -/
theorem nearestBits_below_power {numerator denominator finer : Nat} {units : ℚ} (hdenominator : 0 < denominator)
    (hunits : units = (numerator * unitsPerOne : Nat) / denominator)
    (hlower : (leadingOne : ℚ) - 1 / 4 ≤ units / 2 ^ (finer + 1)) (hupper : units / 2 ^ (finer + 1) < leadingOne) :
    nearestBits numerator denominator = min ((finer + 1) * leadingOne + leadingOne) infinityBits := by
  have hfiner : (0 : ℚ) < 2 ^ finer := by positivity
  have hdouble : units / 2 ^ finer = 2 * (units / 2 ^ (finer + 1)) := by
    rw [pow_succ]
    field_simp
  have hone : (1 : ℚ) ≤ leadingOne := by
    rw [cast_leadingOne]
    norm_num
  rw [show (finer + 1) * leadingOne + leadingOne = finer * leadingOne + 2 * leadingOne by ring]
  apply nearestBits_of_shift hdenominator hunits
  · intro _
    rw [← le_div_iff₀ hfiner]
    linarith
  · rw [← div_lt_iff₀ hfiner]
    linarith
  · refine ⟨?_, ?_, fun hodd => absurd hodd (by omega)⟩
    · push_cast
      linarith
    · push_cast
      linarith

theorem nearestBits_eq {numerator denominator significand shift : Nat} (hcanonical : Canonical significand shift)
    (hdenominator : 0 < denominator)
    (h : Rounds significand shift ((numerator * unitsPerOne : Nat) / denominator)) :
    nearestBits numerator denominator = shift * leadingOne + significand := by
  generalize hunits : ((numerator * unitsPerOne : Nat) / denominator : ℚ) = units at h
  have hsize : (0 : ℚ) < 2 ^ shift := by positivity
  by_cases hlower : 0 < shift → leadingOne * 2 ^ shift ≤ units
  · have hsignificand : (significand : ℚ) + 1 ≤ 2 * leadingOne := by exact_mod_cast hcanonical.significand_lt
    have hupper : units < 2 * leadingOne * 2 ^ shift := by
      rw [← div_lt_iff₀ hsize]
      linarith [h.upper]
    rw [nearestBits_of_shift hdenominator hunits.symm hlower hupper h.toNearest]
    exact Nat.min_eq_left hcanonical.lt_infinityBits.le
  · -- Only the least significand with a leading one rounds from below its power of two.
    rw [Classical.not_imp, not_le, ← div_lt_iff₀ hsize] at hlower
    obtain ⟨hpos, hbelow⟩ := hlower
    obtain rfl : significand = leadingOne := by
      apply le_antisymm _ (hcanonical.leading hpos)
      have hlt : (significand : ℚ) < leadingOne + 1 := by linarith [h.lower]
      exact Nat.lt_add_one_iff.mp (by exact_mod_cast hlt)
    have hnear := h.narrow rfl hpos
    obtain ⟨finer, rfl⟩ : ∃ finer, shift = finer + 1 := ⟨shift - 1, by omega⟩
    rw [nearestBits_below_power hdenominator hunits.symm hnear hbelow]
    exact Nat.min_eq_left hcanonical.lt_infinityBits.le

section

variable {significand shift : Nat} {units : ℚ}

/-- Less than half a unit rounds to zero alone. -/
theorem Rounds.eq_zero_of_lt_half (h : Rounds significand shift units) (hcanonical : Canonical significand shift)
    (hzero : 0 ≤ units) (hhalf : units < 1 / 2) : significand = 0 ∧ shift = 0 := by
  have hsmall : units / 2 ^ shift < 1 / 2 := (div_le_self hzero (one_le_pow₀ one_le_two)).trans_lt hhalf
  have hlt : (significand : ℚ) < 1 := by linarith [h.lower]
  have hsignificand : significand = 0 := Nat.lt_one_iff.mp (by exact_mod_cast hlt)
  subst hsignificand
  exact ⟨rfl, hcanonical.shift_eq_zero⟩

/-- What rounds to a finite float is less than the power of two beyond all of them. -/
theorem Rounds.lt_of_canonical (h : Rounds significand shift units) (hcanonical : Canonical significand shift) :
    units < 2 ^ 1024 * unitsPerOne := by
  have hsize : (0 : ℚ) < 2 ^ shift := by positivity
  have hsignificand : (significand : ℚ) + 1 ≤ 2 * leadingOne := by exact_mod_cast hcanonical.significand_lt
  have hshift : (2 : ℚ) ^ shift ≤ 2 ^ 2045 := pow_le_pow_right₀ one_le_two (Nat.le_of_lt_succ hcanonical.shift_lt)
  calc units ≤ (significand + 1 / 2) * 2 ^ shift := (div_le_iff₀ hsize).mp h.upper
    _ < (2 * leadingOne) * 2 ^ shift := mul_lt_mul_of_pos_right (by linarith) hsize
    _ ≤ (2 * leadingOne) * 2 ^ 2045 := mul_le_mul_of_nonneg_left hshift (mul_nonneg two_pos.le (Nat.cast_nonneg _))
    _ = 2 ^ 1024 * unitsPerOne := by
        rw [cast_leadingOne, cast_unitsPerOne, ← pow_succ', ← pow_add, ← pow_add]

end

end Binary64

/-! ### Numerals -/

namespace Decimal

/-- The number that a numeral stands for. -/
def toRat (d : Decimal) : ℚ :=
  d.coefficient * 10 ^ d.exponent

theorem length_digits_pos (d : Decimal) : 0 < d.digits.length :=
  Nat.length_toDigits_pos

theorem toRat_lt (d : Decimal) : d.toRat < 10 ^ (d.leadingPower + 1) := by
  have hlt : d.coefficient < 10 ^ d.digits.length :=
    (Nat.length_toDigits_le_iff (by decide) d.length_digits_pos).mp le_rfl
  have hcast : (d.coefficient : ℚ) < 10 ^ (d.digits.length : Int) := by
    rw [zpow_natCast]
    exact_mod_cast hlt
  calc d.toRat < 10 ^ (d.digits.length : Int) * 10 ^ d.exponent := by
        exact mul_lt_mul_of_pos_right hcast (by positivity)
    _ = 10 ^ (d.leadingPower + 1) := by
        rw [← zpow_add₀ (by norm_num), leadingPower]
        congr 1
        omega

theorem le_toRat (d : Decimal) (h : d.coefficient ≠ 0) : 10 ^ d.leadingPower ≤ d.toRat := by
  have hle : 10 ^ (d.digits.length - 1) ≤ d.coefficient := by
    by_contra! hlt
    rcases Nat.eq_zero_or_pos (d.digits.length - 1) with hzero | hpos
    · rw [hzero] at hlt
      omega
    · have := (Nat.length_toDigits_le_iff (by decide) hpos).mpr hlt
      have := d.length_digits_pos
      simp only [digits] at *
      omega
  have hcast : (10 : ℚ) ^ (d.digits.length - 1 : Int) ≤ d.coefficient := by
    rw [← Nat.cast_one, ← Nat.cast_sub d.length_digits_pos, zpow_natCast]
    exact_mod_cast hle
  calc (10 : ℚ) ^ d.leadingPower = 10 ^ (d.digits.length - 1 : Int) * 10 ^ d.exponent := by
        rw [← zpow_add₀ (by norm_num), leadingPower]
    _ ≤ d.toRat := mul_le_mul_of_nonneg_right hcast (by positivity)

theorem toRat_eq_div (d : Decimal) :
    d.toRat = (d.coefficient * Nat.pow 10 d.exponent.toNat : Nat) / (Nat.pow 10 (-d.exponent).toNat : Nat) := by
  have hsplit : d.exponent = d.exponent.toNat - (-d.exponent).toNat := by omega
  rw [toRat]
  conv_lhs => rw [hsplit]
  rw [zpow_sub₀ (by norm_num), zpow_natCast, zpow_natCast, ← mul_div_assoc]
  simp

section

open Binary64

variable {significand shift : Nat} {d : Decimal}

theorem two_pow_lt_ten_pow {twos tens : Nat} (h : 2 ^ twos < 10 ^ tens) : (2 : ℚ) ^ twos < 10 ^ (tens : Int) := by
  rw [zpow_natCast]
  exact_mod_cast h

/-- A numeral with its leading digit below every float rounds to zero. -/
theorem units_lt_half (hpower : d.leadingPower < -330) : d.toRat * unitsPerOne < 1 / 2 := by
  have hpowers : (2 : ℚ) ^ 1075 < 10 ^ ((330 : Nat) : Int) := two_pow_lt_ten_pow (by decide +kernel)
  have hle : d.toRat ≤ 10 ^ (-(330 : Nat) : Int) :=
    d.toRat_lt.le.trans (zpow_le_zpow_right₀ (by norm_num) (by omega))
  calc d.toRat * unitsPerOne ≤ 10 ^ (-(330 : Nat) : Int) * unitsPerOne :=
        mul_le_mul_of_nonneg_right hle unitsPerOne_pos.le
    _ = 2 ^ 1074 / 10 ^ ((330 : Nat) : Int) := by rw [zpow_neg, cast_unitsPerOne, inv_mul_eq_div]
    _ < 1 / 2 := by
        rw [div_lt_div_iff₀ (zpow_pos (by norm_num) _) two_pos, one_mul, ← pow_succ]
        exact hpowers

/-- A numeral is read as the float that it rounds to. -/
theorem nearest_eq_pack (negative : Bool) (hcanonical : Canonical significand shift)
    (h : Rounds significand shift (d.toRat * unitsPerOne)) :
    d.nearest negative = pack negative (shift * leadingOne + significand) := by
  unfold nearest
  split_ifs with hsmall hlarge
  · have hhalf : d.toRat * unitsPerOne < 1 / 2 := by
      rcases hsmall with hzero | hpower
      · rw [toRat, hzero, Nat.cast_zero, zero_mul, zero_mul]
        exact one_half_pos
      · exact units_lt_half hpower
    have hnonneg : 0 ≤ d.toRat := by
      unfold toRat
      positivity
    obtain ⟨rfl, rfl⟩ := h.eq_zero_of_lt_half hcanonical (mul_nonneg hnonneg unitsPerOne_pos.le) hhalf
    rfl
  · -- a numeral with its leading digit beyond every float does not round to a finite one
    exfalso
    have hcoefficient : d.coefficient ≠ 0 := fun hzero => hsmall (.inl hzero)
    have hpowers : (2 : ℚ) ^ 1024 < 10 ^ ((311 : Nat) : Int) := two_pow_lt_ten_pow (by decide +kernel)
    have hge : (10 : ℚ) ^ ((311 : Nat) : Int) ≤ d.toRat :=
      (zpow_le_zpow_right₀ (by norm_num) (by omega)).trans (d.le_toRat hcoefficient)
    have hlt := lt_of_mul_lt_mul_right (h.lt_of_canonical hcanonical) unitsPerOne_pos.le
    exact absurd (hpowers.trans_le hge) hlt.not_gt
  · have hdenominator : 0 < Nat.pow 10 (-d.exponent).toNat := Nat.pow_pos (by decide)
    rw [toRat_eq_div, div_mul_eq_mul_div, ← Nat.cast_mul] at h
    rw [nearestFloat, nearestBits_eq hcanonical hdenominator h]

/-- Every numeral is read as a float that keeps its sign and is at most infinite. -/
theorem exists_nearest_eq_pack (negative : Bool) (d : Decimal) :
    ∃ bits, bits ≤ infinityBits ∧ d.nearest negative = pack negative bits := by
  unfold nearest
  split_ifs
  · exact ⟨0, Nat.zero_le _, rfl⟩
  · exact ⟨infinityBits, le_rfl, rfl⟩
  · exact ⟨_, Nat.min_le_right _ _, rfl⟩

end

end Decimal

end ScriptLang
