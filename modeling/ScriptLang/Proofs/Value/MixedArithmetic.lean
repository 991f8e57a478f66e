import Mathlib
import ScriptLang.Proofs.Value.MixedOrder
/-!
# Whole numbers among floats

A whole number that meets a float in an operation becomes a float itself. This is refused beyond `2 ^ 53`, and up to
there it is exact: the units of such a number are a significand of at most 53 bits and a shift, so rounding has nothing
to do. The result of a mixed operation is then the float operation on the float and the very number that was given.
-/

namespace ScriptLang

namespace Binary64

/-! ### Whole numbers that are floats -/

/-- Up to `2 ^ 53` every multiple of a power of two is a float, as long as the power is not among the largest ones. -/
theorem exists_canonical (magnitude scale : Nat) (hmagnitude : magnitude ≤ 2 ^ 53) (hscale : scale ≤ 2044) :
    ∃ significand shift, Canonical significand shift ∧
      significand * Nat.pow 2 shift = magnitude * Nat.pow 2 scale := by
  simp only [Nat.pow_eq]
  have hone : leadingOne = 2 ^ 52 := rfl
  -- The shift is lowered one by one until the leading one is in its place.
  induction scale generalizing magnitude with
  | zero =>
      by_cases htop : magnitude = 2 ^ 53
      · exact ⟨leadingOne, 1, ⟨by omega, by omega, fun _ => le_rfl⟩, by omega⟩
      · exact ⟨magnitude, 0, ⟨by omega, by omega, by omega⟩, rfl⟩
  | succ scale ih =>
      by_cases hsmall : magnitude < leadingOne
      · obtain ⟨significand, shift, hcanonical, hunits⟩ := ih (2 * magnitude) (by omega) (by omega)
        refine ⟨significand, shift, hcanonical, ?_⟩
        rw [hunits, pow_succ]
        ring
      · by_cases htop : magnitude = 2 ^ 53
        · refine ⟨leadingOne, scale + 2, ⟨by omega, by omega, fun _ => le_rfl⟩, ?_⟩
          rw [htop, hone, ← pow_add, ← pow_add]
          congr 1
          omega
        · exact ⟨magnitude, scale + 1, ⟨by omega, by omega, by omega⟩, rfl⟩

theorem ofFloat_nearestFloatOfInt {n : Int} (hn : n.natAbs ≤ 2 ^ 53) :
    ∃ significand shift, ofFloat (nearestFloatOfInt n) = .finite (n < 0) significand shift ∧
      significand * Nat.pow 2 shift = n.natAbs * unitsPerOne := by
  have hscale : ∃ scale ≤ 2044, unitsPerOne = Nat.pow 2 scale := by
    refine ⟨1074, by decide, ?_⟩
    delta unitsPerOne
    with_reducible rfl
  obtain ⟨scale, hle, hone⟩ := hscale
  obtain ⟨significand, shift, hcanonical, hunits⟩ := exists_canonical n.natAbs scale hn hle
  rw [← hone] at hunits
  refine ⟨significand, shift, ?_, hunits⟩
  have hexact : ((n.natAbs * unitsPerOne : Nat) / (1 : Nat) : ℚ) / 2 ^ shift = significand - 0 := by
    rw [← hunits, Nat.pow_eq, Nat.cast_one, div_one, sub_zero, Nat.cast_mul, Nat.cast_pow,
      Nat.cast_ofNat, mul_div_cancel_right₀ _ (pow_ne_zero _ two_ne_zero)]
  have hrounds : Rounds significand shift ((n.natAbs * unitsPerOne : Nat) / (1 : Nat)) :=
    Rounds.of_below hexact le_rfl (by norm_num) (fun _ => by norm_num) (fun _ _ => by norm_num)
  rw [nearestFloatOfInt, nearestFloat, nearestBits_eq hcanonical one_pos hrounds]
  exact ofFloat_pack_of_canonical _ hcanonical

theorem signed_natAbs_mul (n : Int) (units : Nat) : signed (n < 0) (n.natAbs * units) = n * units := by
  unfold signed
  split_ifs with hnegative
  · rw [decide_eq_true_eq] at hnegative
    rw [Nat.cast_mul, ← neg_mul, Int.ofNat_natAbs_of_nonpos hnegative.le, neg_neg]
  · rw [decide_eq_true_eq, not_lt] at hnegative
    rw [Nat.cast_mul, Int.natAbs_of_nonneg hnegative]

theorem rank?_nearestFloatOfInt {n : Int} (hn : n.natAbs ≤ 2 ^ 53) :
    (ofFloat (nearestFloatOfInt n)).rank? = some (n * unitsPerOne) := by
  obtain ⟨significand, shift, hfloat, hunits⟩ := ofFloat_nearestFloatOfInt hn
  rw [hfloat, rank?, hunits, signed_natAbs_mul]

theorem denoted?_nearestFloatOfInt {n : Int} (hn : n.natAbs ≤ 2 ^ 53) :
    denoted? (nearestFloatOfInt n).toBits = some ((n : ℚ) : WithBotTop ℚ) := by
  obtain ⟨significand, shift, hfloat, hunits⟩ := ofFloat_nearestFloatOfInt hn
  rw [denoted?_eq_value?, ← ofFloat, hfloat, value?, withSign_div, hunits, signed_natAbs_mul, Int.cast_mul,
    Int.cast_natCast, mul_div_cancel_right₀ _ unitsPerOne_pos.ne']

end Binary64

open Binary64

theorem floatOfInt?_eq_some_iff {n : Int} {x : Float} :
    floatOfInt? n = some x ↔ n.natAbs ≤ 2 ^ 53 ∧ nearestFloatOfInt n = x := by
  rw [floatOfInt?, Option.ite_none_right_eq_some, Option.some_inj, Nat.pow_eq]

theorem denoted?_of_floatOfInt? {n : Int} {x : Float} (hx : floatOfInt? n = some x) :
    denoted? x.toBits = some ((n : ℚ) : WithBotTop ℚ) := by
  obtain ⟨hsmall, rfl⟩ := floatOfInt?_eq_some_iff.mp hx
  exact denoted?_nearestFloatOfInt hsmall

/-! ### Mixed operations -/

namespace Value

/-- What the operators of arithmetic do to floats. -/
def floatOperations : List (Operator × (Float → Float → Float)) :=
  [(.add, (· + ·)), (.subtract, (· - ·)), (.multiply, (· * ·)), (.divide, (· / ·))]

theorem exists_floatOperation {operator : Operator} {a b : Float} {value : Value}
    (h : floatArithmetic operator a b = .ok value) :
    ∃ operation, (operator, operation) ∈ floatOperations ∧ value = .float (operation a b) := by
  cases operator with
  | add | subtract | multiply | divide =>
      cases h
      exact ⟨_, by simp [floatOperations], rfl⟩
  | _ => cases h

theorem toFloat?_int_eq_ok {n : Int64} {x : Float} :
    toFloat? (.int n) = .ok (some x) ↔ floatOfInt? n.toInt = some x := by
  rw [toFloat?]
  cases floatOfInt? n.toInt with
  | none => exact iff_of_false nofun nofun
  | some y => rw [Except.ok.injEq]

/-- Two numbers of which one is a float are both taken as floats. -/
theorem exists_operation_of_arithmetic {operator : Operator} {left right value : Value}
    (hleft : left.isNumber = true) (hright : right.isNumber = true) (hints : ¬∃ a b, left = .int a ∧ right = .int b)
    (h : arithmetic operator left right = .ok value) :
    ∃ a b operation, left.toFloat? = .ok (some a) ∧ right.toFloat? = .ok (some b) ∧
      (operator, operation) ∈ floatOperations ∧ value = .float (operation a b) := by
  unfold arithmetic at h
  split at h
  · cases h
  · split at h
    · exact absurd ⟨_, _, rfl, rfl⟩ hints
    · cases hleft
    · revert h
      rw [hleft, hright]
      rcases left.toFloat? with _ | _ | a <;> rcases right.toFloat? with _ | _ | b <;> intro h
      case ok.some.ok.some =>
        obtain ⟨operation, hoperation⟩ := exists_floatOperation h
        exact ⟨a, b, operation, rfl, rfl, hoperation⟩
      all_goals cases h

/-- A whole number becomes a float exactly if its magnitude is at most `2 ^ 53`, and the float denotes that very number:
other whole numbers become other floats, and the two compare as equal. Whatever an operator of arithmetic gives for the
whole number and a float, on either side, is its float operation on the float and one that denotes the whole number. -/
theorem arithmetic_never_rounds_operand (n : Int64) :
    ((∃ x, floatOfInt? n.toInt = some x) ↔ n.toInt.natAbs ≤ 2 ^ 53) ∧
    (∀ x, floatOfInt? n.toInt = some x →
      denoted? x.toBits = some ((n.toInt : ℚ) : WithBotTop ℚ) ∧
      (∀ m : Int64, floatOfInt? m.toInt = some x → m = n) ∧
      compareIntFloat n.toInt x = some .eq) ∧
    ∀ (operator : Operator) (y : Float) (value : Value),
      (arithmetic operator (.int n) (.float y) = .ok value →
        ∃ x operation, denoted? x.toBits = some ((n.toInt : ℚ) : WithBotTop ℚ) ∧ floatOfInt? n.toInt = some x ∧
          (operator, operation) ∈ floatOperations ∧ value = .float (operation x y)) ∧
      (arithmetic operator (.float y) (.int n) = .ok value →
        ∃ x operation, denoted? x.toBits = some ((n.toInt : ℚ) : WithBotTop ℚ) ∧ floatOfInt? n.toInt = some x ∧
          (operator, operation) ∈ floatOperations ∧ value = .float (operation y x)) := by
  refine ⟨?_, fun x hx => ⟨denoted?_of_floatOfInt? hx, fun m hm => ?_, ?_⟩, fun operator y value => ⟨?_, ?_⟩⟩
  · simp only [floatOfInt?_eq_some_iff, exists_and_left, exists_eq', and_true]
  · have hvalue := (denoted?_of_floatOfInt? hm).symm.trans (denoted?_of_floatOfInt? hx)
    exact Int64.toInt_inj.mp (Int.cast_injective (WithBotTop.coe_injective (Option.some.inj hvalue)))
  · obtain ⟨hsmall, rfl⟩ := floatOfInt?_eq_some_iff.mp hx
    rw [compareIntFloat, rank?_nearestFloatOfInt hsmall, Option.map_some, Std.compare_self]
  · intro h
    obtain ⟨x, _, operation, hleft, ⟨⟩, hoperation⟩ := exists_operation_of_arithmetic rfl rfl (by simp) h
    have hx := toFloat?_int_eq_ok.mp hleft
    exact ⟨x, operation, denoted?_of_floatOfInt? hx, hx, hoperation⟩
  · intro h
    obtain ⟨_, x, operation, ⟨⟩, hright, hoperation⟩ := exists_operation_of_arithmetic rfl rfl (by simp) h
    have hx := toFloat?_int_eq_ok.mp hright
    exact ⟨x, operation, denoted?_of_floatOfInt? hx, hx, hoperation⟩

/-- The last number that is taken, from the right: the operation rounds its result, but not the operand. -/
theorem arithmetic_never_rounds_operand_at_limit :
    floatOfInt? (Int64.toInt (-9007199254740992)) = some (-9007199254740992.0) ∧
    denoted? (-9007199254740992.0 : Float).toBits =
      some ((Int64.toInt (-9007199254740992) : ℚ) : WithBotTop ℚ) ∧
    arithmetic .subtract (.float 0.5) (.int (-9007199254740992)) = .ok (.float 9007199254740992.0) ∧
    ∃ x operation, denoted? x.toBits = some ((Int64.toInt (-9007199254740992) : ℚ) : WithBotTop ℚ) ∧
      (Operator.subtract, operation) ∈ floatOperations ∧ Value.float 9007199254740992.0 = .float (operation 0.5 x) := by
  have hfloat : floatOfInt? (Int64.toInt (-9007199254740992)) = some (-9007199254740992.0) := by
    decide +kernel
  have hresult : arithmetic .subtract (.float 0.5) (.int (-9007199254740992)) = .ok (.float 9007199254740992.0) := by
    decide +kernel
  obtain ⟨-, hexact, hmixed⟩ := arithmetic_never_rounds_operand (-9007199254740992)
  obtain ⟨x, operation, hx, -, hoperation, hvalue⟩ := (hmixed .subtract 0.5 _).2 hresult
  exact ⟨hfloat, (hexact _ hfloat).1, hresult, x, operation, hx, hoperation, hvalue⟩

end Value

end ScriptLang
