import Mathlib
import ScriptLang.Decimal.Shortest
import ScriptLang.Proofs.Binary64.Rounding
/-!
# The shortest numeral reads back

A numeral is found on a grid only if it is near enough to the float to round to it, and the finest grid always has
one. So the shortest numeral of a finite float, whichever way ties go, is read as that float again, and so is every
other numeral of the same value.
-/

namespace ScriptLang

namespace Decimal

open Binary64

/-- The length stays within the reach, whose end belongs to it if the significand is even. -/
def Within (significand length reach : Nat) : Prop :=
  length ≤ reach ∧ (significand % 2 = 1 → length < reach)

theorem within_iff {significand length reach : Nat} :
    (if significand % 2 = 0 then decide (length ≤ reach) else decide (length < reach)) = true ↔
      Within significand length reach := by
  unfold Within
  split_ifs with heven <;> simp only [decide_eq_true_eq] <;> omega

theorem Within.div_le {significand length unit : Nat} (h : Within significand (2 * length) unit) (hunit : 0 < unit) :
    (length / unit : ℚ) ≤ 1 / 2 ∧ (significand % 2 = 1 → (length / unit : ℚ) < 1 / 2) := by
  have hpos : (0 : ℚ) < unit := by exact_mod_cast hunit
  obtain ⟨hle, hlt⟩ := h
  constructor
  · rw [div_le_div_iff₀ hpos two_pos, one_mul, mul_comm]
    exact_mod_cast hle
  · intro hodd
    rw [div_lt_div_iff₀ hpos two_pos, one_mul, mul_comm]
    exact_mod_cast hlt hodd

/-! ### One grid -/

section

variable {tie : Tie} {significand shift step coefficient unit spacing : Nat}

/-- What is found on a grid is one of the two neighbours of the float there, and as near as it has to be. -/
theorem onGrid?_eq_some (hunit : Nat.pow 2 shift * Nat.pow 10 324 = unit)
    (hspacing : Nat.pow 10 step * unitsPerOne = spacing)
    (h : onGrid? tie significand shift step = some coefficient) :
    (coefficient = significand * unit / spacing ∧
      Within significand (2 * (significand * unit % spacing)) unit ∧
      (significand = leadingOne → 0 < shift → 4 * (significand * unit % spacing) ≤ unit)) ∨
    (coefficient = significand * unit / spacing + 1 ∧
      Within significand (2 * (spacing - significand * unit % spacing)) unit) := by
  unfold onGrid? at h
  rw [hunit, hspacing] at h
  extract_lets unit spacing floor below above within narrow lowerFits upperFits nearer at h
  have hlower (hfits : lowerFits = true) : Within significand (2 * below) unit ∧
      (significand = leadingOne → 0 < shift → 4 * below ≤ unit) := by
    have hwithin := within_iff.mp hfits
    split_ifs at hwithin with hnarrow
    · unfold Within at hwithin ⊢
      omega
    · exact ⟨hwithin, fun hone hshift => absurd ⟨hone, hshift⟩ hnarrow⟩
  have hupper (hfits : upperFits = true) : Within significand (2 * above) unit := within_iff.mp hfits
  have hnearer : nearer = floor ∨ nearer = floor + 1 := by
    simp only [nearer]
    cases compare below above with
    | lt => exact .inl rfl
    | gt => exact .inr rfl
    | eq =>
        cases tie with
        | up => exact .inr rfl
        | even =>
            show floor + floor % 2 = floor ∨ floor + floor % 2 = floor + 1
            omega
  clear_value lowerFits upperFits nearer
  cases lowerFits <;> cases upperFits
  · cases h
  · exact .inr ⟨(Option.some.inj h).symm, hupper rfl⟩
  · exact .inl ⟨(Option.some.inj h).symm, hlower rfl⟩
  · rw [← Option.some.inj h]
    exact hnearer.imp (⟨·, hlower rfl⟩) (⟨·, hupper rfl⟩)

/-- The finest grid is so fine that the float's upper neighbour there is always near enough. -/
theorem onGrid?_finest : ∃ coefficient, onGrid? tie significand shift 0 = some coefficient := by
  have hfine : 2 * (Nat.pow 10 0 * unitsPerOne) < Nat.pow 2 shift * Nat.pow 10 324 := by
    have hpowers : 2 * (Nat.pow 10 0 * unitsPerOne) < Nat.pow 10 324 := by decide +kernel
    exact hpowers.trans_le (Nat.le_mul_of_pos_left _ (Nat.pow_pos (by decide)))
  unfold onGrid?
  generalize Nat.pow 10 0 * unitsPerOne = spacing at hfine
  generalize Nat.pow 2 shift * Nat.pow 10 324 = unit at hfine
  extract_lets unit spacing floor below above within narrow lowerFits upperFits nearer
  have hupper : upperFits = true := by
    apply within_iff.mpr
    have : above ≤ spacing := Nat.sub_le _ _
    unfold Within
    omega
  clear_value lowerFits upperFits
  cases hupper
  cases lowerFits <;> exact ⟨_, rfl⟩

/-- A numeral on a grid, counted in steps of the float's own size. -/
theorem units_div_eq (hunit : Nat.pow 2 shift * Nat.pow 10 324 = unit)
    (hspacing : Nat.pow 10 step * unitsPerOne = spacing) :
    toRat ⟨coefficient, finestPower + step⟩ * unitsPerOne / 2 ^ shift = (coefficient * spacing : Nat) / unit := by
  have hpower : (10 : ℚ) ^ (finestPower + step) = 10 ^ step / 10 ^ 324 := by
    rw [zpow_add₀ (by norm_num), zpow_natCast, div_eq_inv_mul]
    rfl
  rw [← hunit, ← hspacing, toRat, hpower]
  generalize unitsPerOne = units
  generalize 324 = finest
  simp only [Nat.pow_eq]
  push_cast
  field_simp

/-- What is found on a grid rounds to the float. -/
theorem rounds_of_onGrid? (h : onGrid? tie significand shift step = some coefficient) :
    Rounds significand shift (toRat ⟨coefficient, finestPower + step⟩ * unitsPerOne) := by
  obtain ⟨unit, hunit⟩ : ∃ unit, Nat.pow 2 shift * Nat.pow 10 324 = unit := ⟨_, rfl⟩
  obtain ⟨spacing, hspacing⟩ : ∃ spacing, Nat.pow 10 step * unitsPerOne = spacing := ⟨_, rfl⟩
  have hpos : 0 < unit := by
    rw [← hunit]
    generalize 324 = finest
    rw [Nat.pow_eq, Nat.pow_eq]
    positivity
  have hspace : 0 < spacing := by
    rw [← hspacing]
    exact Nat.mul_pos (Nat.pow_pos (by decide)) (Nat.cast_pos.mp unitsPerOne_pos)
  have hcast : (0 : ℚ) < unit := by exact_mod_cast hpos
  have hsplit := Nat.div_add_mod' (significand * unit) spacing
  have hrest := Nat.mod_lt (significand * unit) hspace
  have hsize := @units_div_eq shift step coefficient unit spacing hunit hspacing
  rcases onGrid?_eq_some hunit hspacing h with ⟨hcoefficient, hwithin, hnarrow⟩ | ⟨hcoefficient, hwithin⟩
  · rw [← hcoefficient] at hsplit
    obtain ⟨hhalf, hodd⟩ := hwithin.div_le hpos
    refine Rounds.of_below (hsize.trans ?_) (div_nonneg (Nat.cast_nonneg _) hcast.le) hhalf hodd ?_
    · rw [eq_sub_iff_add_eq, ← add_div, div_eq_iff hcast.ne']
      exact_mod_cast hsplit
    · intro hone hshift
      rw [div_le_div_iff₀ hcast four_pos, one_mul, mul_comm]
      exact_mod_cast hnarrow hone hshift
  · obtain ⟨hhalf, hodd⟩ := hwithin.div_le hpos
    refine Rounds.of_above (hsize.trans ?_) (div_nonneg (Nat.cast_nonneg _) hcast.le) hhalf hodd
    have habove : coefficient * spacing = significand * unit + (spacing - significand * unit % spacing) := by
      rw [hcoefficient, Nat.add_mul, Nat.one_mul]
      omega
    rw [← sub_eq_iff_eq_add, ← sub_div, div_eq_iff hcast.ne', sub_eq_iff_eq_add]
    exact_mod_cast habove

end

/-! ### The search -/

section

variable {tie : Tie} {significand shift : Nat}

theorem rounds_coarsest (step : Nat) :
    Rounds significand shift ((coarsest tie significand shift step).toRat * unitsPerOne) := by
  induction step with
  | zero =>
      obtain ⟨coefficient, hcoefficient⟩ := @onGrid?_finest tie significand shift
      have hrounds := rounds_of_onGrid? hcoefficient
      rw [coarsest, hcoefficient]
      exact hrounds
  | succ step ih =>
      rw [coarsest]
      split
      next coefficient hcoefficient => exact rounds_of_onGrid? hcoefficient
      next => exact ih

/-- The shortest numeral of a float rounds to it. -/
theorem rounds_shortest (tie : Tie) (hcanonical : Canonical significand shift) :
    Rounds significand shift ((shortest tie significand shift).toRat * unitsPerOne) := by
  unfold shortest
  split_ifs with hzero
  · subst hzero
    rw [hcanonical.shift_eq_zero]
    refine Rounds.of_below ?_ le_rfl one_half_pos.le nofun nofun
    rw [toRat, Nat.cast_zero, zero_mul, zero_mul, zero_div, sub_zero]
  · exact rounds_coarsest _

end

/-- A finite float is read from every numeral that has the value of its shortest one. -/
theorem nearest_eq_of_toRat_eq {x : Float} {negative : Bool} {significand shift : Nat} {tie : Tie} {d : Decimal}
    (hx : ofFloat x = .finite negative significand shift) (hd : d.toRat = (shortest tie significand shift).toRat) :
    d.nearest negative = x := by
  obtain ⟨hcanonical, hbits⟩ := ofFloat_eq_finite hx
  have hrounds := rounds_shortest tie hcanonical
  rw [← hd] at hrounds
  exact (nearest_eq_pack negative hcanonical hrounds).trans hbits.symm

end Decimal

end ScriptLang
