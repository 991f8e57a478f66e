import Mathlib
import ScriptLang.Proofs.Binary64.Denotation
import ScriptLang.Proofs.Binary64.Truncation
import ScriptLang.Proofs.Value.Order
/-!
# Whole numbers against floats

A whole number and a float are compared in units, and this is comparing the numbers that they denote: the units are the
same for both, so nothing is rounded, and the infinities have a place beyond every whole number of 64 bits.

The same order can be found with words and floats alone, as `wordOrder` does. A number beyond the words is told by its
side; any other is cut toward zero, which gives a word, and a tie is broken by the sign of the part that was cut off. No
step of this is rounded, so the two are one.
-/

namespace ScriptLang

namespace Binary64

/-! ### Comparing units -/

theorem compares_units (n units : Int) :
    (compare (n * unitsPerOne) units).Compares ((n : ℚ) : WithBotTop ℚ) ((units / unitsPerOne : ℚ) : WithBotTop ℚ) := by
  rcases Int.lt_trichotomy (n * unitsPerOne) units with h | h | h
  · rw [Std.compare_eq_lt.mpr h]
    show (_ : WithBotTop ℚ) < _
    rw [WithBotTop.coe_lt_coe, lt_div_iff₀ unitsPerOne_pos]
    exact_mod_cast h
  · rw [Std.compare_eq_iff_eq.mpr h]
    show (_ : WithBotTop ℚ) = _
    rw [← h, Int.cast_mul, Int.cast_natCast, mul_div_cancel_right₀ _ unitsPerOne_pos.ne']
  · rw [Std.compare_eq_gt.mpr h]
    show (_ : WithBotTop ℚ) < _
    rw [WithBotTop.coe_lt_coe, div_lt_iff₀ unitsPerOne_pos]
    exact_mod_cast h

theorem withSign_div (negative : Bool) (significand shift : Nat) :
    withSign negative (significand * 2 ^ shift / unitsPerOne) =
      (signed negative (significand * Nat.pow 2 shift) : Int) / unitsPerOne := by
  generalize unitsPerOne = units
  cases negative with
  | false => simp [withSign, signed]
  | true => simp [withSign, signed, neg_div]

theorem mul_unitsPerOne_bounds (n : Int64) :
    -2 ^ 63 * (unitsPerOne : Int) ≤ n.toInt * unitsPerOne ∧ n.toInt * unitsPerOne < 2 ^ 63 * unitsPerOne := by
  have hone : 0 < unitsPerOne := Nat.cast_pos.mp unitsPerOne_pos
  exact ⟨Int.mul_le_mul_of_nonneg_right n.minValue_le_toInt (Int.natCast_nonneg _),
    Int.mul_lt_mul_of_pos_right n.toInt_lt (Int.natCast_pos.mpr hone)⟩

/-- The infinities stand beyond every word. -/
theorem words_lt_reach {reach : Nat} (hreach : leadingOne * Nat.pow 2 2046 = reach) : 2 ^ 63 * unitsPerOne < reach := by
  rw [← hreach]
  decide +kernel

theorem mul_unitsPerOne_lt {reach : Nat} (hreach : leadingOne * Nat.pow 2 2046 = reach) (n : Int64) :
    n.toInt * unitsPerOne < reach ∧ -(reach : Int) < n.toInt * unitsPerOne := by
  have hwords := words_lt_reach hreach
  obtain ⟨hlower, hupper⟩ := mul_unitsPerOne_bounds n
  generalize unitsPerOne = one at *
  omega

theorem compares_rank {x : Binary64} {units : Int} {value : WithBotTop ℚ} (n : Int64) (hunits : x.rank? = some units)
    (hvalue : x.value? = some value) :
    (compare (n.toInt * unitsPerOne) units).Compares ((n.toInt : ℚ) : WithBotTop ℚ) value := by
  cases x with
  | nan => cases hunits
  | infinite negative =>
      obtain ⟨reach, hreach⟩ : ∃ reach, leadingOne * Nat.pow 2 2046 = reach := ⟨_, rfl⟩
      obtain ⟨hlt, hgt⟩ := mul_unitsPerOne_lt hreach n
      rw [rank?, hreach] at hunits
      obtain rfl := Option.some.inj hunits
      obtain rfl := Option.some.inj hvalue
      cases negative with
      | false =>
          rw [show compare (n.toInt * unitsPerOne) (signed false reach) = .lt from Std.compare_eq_lt.mpr hlt]
          exact WithBot.coe_lt_coe.mpr (WithTop.coe_lt_top _)
      | true =>
          rw [show compare (n.toInt * unitsPerOne) (signed true reach) = .gt from Std.compare_eq_gt.mpr hgt]
          exact WithBot.bot_lt_coe _
  | finite negative significand shift =>
      obtain rfl := Option.some.inj hunits
      obtain rfl := Option.some.inj hvalue
      rw [withSign_div]
      exact compares_units _ _

theorem exists_rank?_of_value? {x : Binary64} {value : WithBotTop ℚ} (h : x.value? = some value) :
    ∃ units, x.rank? = some units := by
  cases x with
  | nan => cases h
  | infinite | finite => exact ⟨_, rfl⟩

/-! ### Comparing words -/

/-- The order of a word and a float, found with words and floats alone. A float beyond the words is told by its side;
any other is cut to a word, and the part that was cut off breaks a tie. -/
def wordOrder (n : Int64) (x : Float) : Option Ordering :=
  if x.isNaN then none
  else if 9223372036854775808.0 ≤ x then some .lt
  else if x < -9223372036854775808.0 then some .gt
  else
    let whole := truncate x
    let fraction := x - whole
    some ((compare n.toInt (toWord whole).toInt).then
      (if 0.0 < fraction then .lt else if fraction < 0.0 then .gt else .eq))

theorem compare_add_right (a b : Int) : compare a (a + b) = compare 0 b := by
  rcases Int.lt_trichotomy 0 b with h | rfl | h
  · rw [Std.compare_eq_lt.mpr h, Std.compare_eq_lt.mpr (by omega)]
  · rw [Int.add_zero, Std.compare_eq_iff_eq.mpr rfl, Std.compare_eq_iff_eq.mpr rfl]
  · rw [Std.compare_eq_gt.mpr h, Std.compare_eq_gt.mpr (by omega)]

/-- Two numbers of which one is given in parts: the whole ones are compared first, and the rest breaks a tie. The rest
is less than one, on either side. -/
theorem compare_mul_add {n whole rest : Int} {one : Nat} (hlower : -(one : Int) < rest) (hupper : rest < one) :
    compare (n * one) (whole * one + rest) = (compare n whole).then (compare 0 rest) := by
  have hbelow {a b : Int} (h : a < b) : a * one ≤ b * one - one := by
    have hle := Int.mul_le_mul_of_nonneg_right (Int.le_sub_one_of_lt h) (Int.natCast_nonneg one)
    rwa [Int.sub_mul, Int.one_mul] at hle
  rcases Int.lt_trichotomy n whole with h | rfl | h
  · have hle := hbelow h
    rw [Std.compare_eq_lt.mpr h, Std.compare_eq_lt.mpr (by omega)]
    rfl
  · rw [compare_add_right, Std.compare_eq_iff_eq.mpr rfl]
    rfl
  · have hle := hbelow h
    rw [Std.compare_eq_gt.mpr h, Std.compare_eq_gt.mpr (by omega)]
    rfl

theorem compare_mul_signed (n : Int) (negative : Bool) (units : Nat) {one : Nat} (hone : 0 < one) :
    compare (n * one) (signed negative units) =
      (compare n (signed negative (units / one))).then (compare 0 (signed negative (units % one))) := by
  have hparts : signed negative units = signed negative (units / one) * one + signed negative (units % one) := by
    have hunits : (units : Int) = (units / one : Nat) * one + (units % one : Nat) := by
      exact_mod_cast (Nat.div_add_mod' units one).symm
    cases negative with
    | false => exact hunits
    | true => rw [signed_true, signed_true, signed_true, hunits, Int.neg_add, Int.neg_mul]
  have hlt := Nat.mod_lt units hone
  rw [hparts]
  apply compare_mul_add
  · cases negative <;> simp only [signed_false, signed_true] <;> omega
  · cases negative <;> simp only [signed_false, signed_true] <;> omega

theorem rank?_upper : (ofFloat 9223372036854775808.0).rank? = some ((2 ^ 63 : Int) * unitsPerOne) := by
  decide +kernel

theorem rank?_lower : (ofFloat (-9223372036854775808.0)).rank? = some ((-2 ^ 63 : Int) * unitsPerOne) := by
  decide +kernel

theorem rank?_zero : (ofFloat 0.0).rank? = some 0 :=
  rfl

/-- The sign of a float, as it is found by comparing it with zero. -/
theorem compare_zero_of_rank? {x : Float} {units : Int} (h : (ofFloat x).rank? = some units) :
    (if 0.0 < x then Ordering.lt else if x < 0.0 then .gt else .eq) = compare 0 units := by
  have hpositive := lt_iff_of_rank? rank?_zero h
  have hnegative := lt_iff_of_rank? h rank?_zero
  split_ifs with hlt hgt
  · exact (Std.compare_eq_lt.mpr (hpositive.mp hlt)).symm
  · exact (Std.compare_eq_gt.mpr (hnegative.mp hgt)).symm
  · rw [hpositive] at hlt
    rw [hnegative] at hgt
    exact (Std.compare_eq_iff_eq.mpr (by omega)).symm

section

variable {x : Float} {units : Int} (hrank : (ofFloat x).rank? = some units)
  (hupper : ¬2 ^ 63 * (unitsPerOne : Int) ≤ units) (hlower : ¬units < -2 ^ 63 * (unitsPerOne : Int))

include hrank hupper hlower

theorem exists_finite_of_rank? : ∃ negative significand shift, ofFloat x = .finite negative significand shift := by
  cases hx : ofFloat x with
  | nan =>
      rw [hx] at hrank
      cases hrank
  | infinite negative =>
      obtain ⟨reach, hreach⟩ : ∃ reach, leadingOne * Nat.pow 2 2046 = reach := ⟨_, rfl⟩
      have hwords := words_lt_reach hreach
      rw [hx, rank?, hreach, Option.some_inj] at hrank
      generalize unitsPerOne = one at *
      cases negative with
      | false =>
          rw [signed_false] at hrank
          omega
      | true =>
          rw [signed_true] at hrank
          omega
  | finite negative significand shift => exact ⟨negative, significand, shift, rfl⟩

/-- A number within the words is cut to one of them. -/
theorem toInt_toWord_truncate {negative : Bool} {significand shift : Nat}
    (hx : ofFloat x = .finite negative significand shift) :
    (toWord (truncate x)).toInt = signed negative (significand * Nat.pow 2 shift / unitsPerOne) := by
  have hone : 0 < unitsPerOne := Nat.cast_pos.mp unitsPerOne_pos
  rw [hx, rank?, Option.some_inj] at hrank
  subst hrank
  rw [toWord_truncate hx]
  generalize significand * Nat.pow 2 shift = magnitude at *
  generalize unitsPerOne = one at *
  have hmin : Int64.minValue.toInt = -2 ^ 63 := rfl
  have hmax : Int64.maxValue.toInt = 2 ^ 63 - 1 := rfl
  cases negative with
  | false =>
      rw [signed_false] at *
      have hlt : magnitude / one < 2 ^ 63 := Nat.div_lt_of_lt_mul (by rw [Nat.mul_comm]; omega)
      generalize magnitude / one = whole at *
      exact Int64.toInt_ofIntClamp (by omega) (by omega)
  | true =>
      rw [signed_true] at *
      have hle : magnitude / one ≤ 2 ^ 63 := Nat.div_le_of_le_mul (by rw [Nat.mul_comm]; omega)
      generalize magnitude / one = whole at *
      exact Int64.toInt_ofIntClamp (by omega) (by omega)

end

theorem compareIntFloat_eq_wordOrder (n : Int64) (x : Float) : compareIntFloat n.toInt x = wordOrder n x := by
  have hone : 0 < unitsPerOne := Nat.cast_pos.mp unitsPerOne_pos
  have hnan := rank?_ofFloat_eq_none_iff x
  obtain ⟨hle, hlt⟩ := mul_unitsPerOne_bounds n
  rw [compareIntFloat, wordOrder]
  cases hrank : (ofFloat x).rank? with
  | none =>
      rw [if_pos (hnan.mp hrank)]
      rfl
  | some units =>
      have habove := le_iff_of_rank? rank?_upper hrank
      have hbelow := lt_iff_of_rank? hrank rank?_lower
      have hnotNaN : ¬x.isNaN = true := by
        rw [← hnan, hrank]
        exact Option.some_ne_none units
      rw [if_neg hnotNaN, Option.map_some]
      split_ifs with hupper hlower
      · rw [Std.compare_eq_lt.mpr (hlt.trans_le (habove.mp hupper))]
      · rw [Std.compare_eq_gt.mpr ((hbelow.mp hlower).trans_le hle)]
      · rw [habove] at hupper
        rw [hbelow] at hlower
        obtain ⟨negative, significand, shift, hx⟩ := exists_finite_of_rank? hrank hupper hlower
        dsimp only
        rw [toInt_toWord_truncate hrank hupper hlower hx, compare_zero_of_rank? (rank?_fraction hx)]
        rw [hx, rank?, Option.some_inj] at hrank
        rw [← hrank, compare_mul_signed n.toInt negative _ hone]

end Binary64

open Binary64

/-- A whole number and a float are ordered as the numbers that they denote, without any rounding, and what is no number
has no order. The order is the one that is found with words and floats alone. -/
theorem compareIntFloat_exact (n : Int64) (bits : UInt64) :
    (compareIntFloat n.toInt (Float.ofBits bits) = none ↔ (Float.ofBits bits).isNaN = true) ∧
    ((Float.ofBits bits).isNaN = true ↔ denoted? bits = none) ∧
    (∀ value, denoted? bits = some value →
      ∃ ordering, compareIntFloat n.toInt (Float.ofBits bits) = some ordering ∧
        (ordering = .lt ↔ (n.toInt : ℚ) < value) ∧ (ordering = .eq ↔ (n.toInt : ℚ) = value) ∧
        (ordering = .gt ↔ value < (n.toInt : ℚ))) ∧
    compareIntFloat n.toInt (Float.ofBits bits) = wordOrder n (Float.ofBits bits) := by
  refine ⟨?_, ?_, ?_, compareIntFloat_eq_wordOrder n _⟩
  · rw [compareIntFloat, Option.map_eq_none_iff, rank?_ofFloat_eq_none_iff]
  · rw [← rank?_ofFloat_eq_none_iff, rank?_eq_none_iff, ofFloat_ofBits, denoted?_eq_value?, value?_eq_none_iff]
  · intro value hvalue
    rw [denoted?_eq_value?] at hvalue
    obtain ⟨units, hunits⟩ := exists_rank?_of_value? hvalue
    have hcompares := compares_rank n hunits hvalue
    refine ⟨_, ?_, hcompares.eq_lt, hcompares.eq_eq, hcompares.eq_gt⟩
    rw [compareIntFloat, ofFloat_ofBits, hunits, Option.map_some]

/-- The largest word is below `2 ^ 63` although it would be rounded to it, and the smallest is `-2 ^ 63`. -/
theorem compareIntFloat_exact_at_word_limits :
    (denoted? 0x43e0000000000000 = some ((2 ^ 63 : ℚ) : WithBotTop ℚ) ∧
      compareIntFloat Int64.maxValue.toInt (Float.ofBits 0x43e0000000000000) = some .lt) ∧
    (denoted? 0xc3e0000000000000 = some ((-2 ^ 63 : ℚ) : WithBotTop ℚ) ∧
      compareIntFloat Int64.minValue.toInt (Float.ofBits 0xc3e0000000000000) = some .eq) := by
  have hupper : denoted? 0x43e0000000000000 = some ((2 ^ 63 : ℚ) : WithBotTop ℚ) := by
    decide +kernel
  have hlower : denoted? 0xc3e0000000000000 = some ((-2 ^ 63 : ℚ) : WithBotTop ℚ) := by
    decide +kernel
  obtain ⟨-, -, hbelow, -⟩ := compareIntFloat_exact Int64.maxValue 0x43e0000000000000
  obtain ⟨-, -, hequal, -⟩ := compareIntFloat_exact Int64.minValue 0xc3e0000000000000
  obtain ⟨ordering, hmax, hlt, -, -⟩ := hbelow _ hupper
  obtain ⟨ordering', hmin, -, heq, -⟩ := hequal _ hlower
  refine ⟨⟨hupper, ?_⟩, hlower, ?_⟩
  · rw [hmax, hlt.mpr (by decide +kernel)]
  · rw [hmin, heq.mpr (by decide +kernel)]

end ScriptLang
