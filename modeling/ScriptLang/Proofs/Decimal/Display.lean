import Mathlib
import ScriptLang.Value
import ScriptLang.Proofs.Decimal.Layout
import ScriptLang.Proofs.Decimal.Shortest
/-!
# The text of a float reads back

A whole float is shown with all its digits and a zero behind the point, any other one by its shortest numeral. A
shortest numeral without a point would stand for a whole number, and the only whole number that rounds to a float of
that size is the float itself. So the text of a finite float always has digits on both sides of a point, and it is read
as the same float again, whatever its size and its sign.
-/

namespace ScriptLang

open Binary64

namespace Decimal

variable {significand shift : Nat}

/-! ### Whole floats -/

theorem pow_dvd_unitsPerOne (h : shift ≤ 1074) : 2 ^ shift ∣ unitsPerOne := by
  unfold unitsPerOne
  generalize 1074 = exponent at *
  exact pow_dvd_pow 2 h

theorem unitsPerOne_dvd_pow (h : 1074 ≤ shift) : unitsPerOne ∣ 2 ^ shift := by
  unfold unitsPerOne
  generalize 1074 = exponent at *
  exact pow_dvd_pow 2 h

/-- A whole number that rounds to a float of this size is the float. -/
theorem eq_of_rounds_whole {n : Nat} (hshift : shift ≤ 1074) (h : Rounds significand shift (n * unitsPerOne)) :
    significand * 2 ^ shift = n * unitsPerOne := by
  obtain ⟨finer, hfiner⟩ := pow_dvd_unitsPerOne hshift
  generalize unitsPerOne = units at *
  subst hfiner
  have hquotient : (n * (2 ^ shift * finer : Nat) / 2 ^ shift : ℚ) = (n * finer : Nat) := by
    push_cast
    field_simp
  have hlower := h.lower
  have hupper := h.upper
  rw [hquotient] at hlower hupper
  have hle : (n * finer : Nat) < (significand + 1 : ℚ) := by linarith
  have hge : (significand : ℚ) < (n * finer : Nat) + 1 := by linarith
  norm_cast at hle hge
  obtain rfl : significand = n * finer := by omega
  ring

/-- The shortest numeral of a float that is not whole has a point. -/
theorem exponent_shortest_neg (tie : Tie) (hcanonical : Canonical significand shift)
    (hwhole : ¬unitsPerOne ∣ significand * 2 ^ shift) : (shortest tie significand shift).exponent < 0 := by
  have hshift : shift ≤ 1074 := by
    by_contra! hlarge
    exact hwhole ((unitsPerOne_dvd_pow hlarge.le).mul_left _)
  by_contra! hpoint
  have hrounds := rounds_shortest tie hcanonical
  have hnumeral : (shortest tie significand shift).toRat =
      ((shortest tie significand shift).coefficient * 10 ^ (shortest tie significand shift).exponent.toNat : Nat) := by
    rw [toRat_eq_div, show (-(shortest tie significand shift).exponent).toNat = 0 by omega]
    simp
  rw [hnumeral] at hrounds
  rw [eq_of_rounds_whole hshift hrounds] at hwhole
  exact hwhole (Nat.dvd_mul_left _ _)

/-- A float is nearest to its own value. -/
theorem nearest_eq_of_toRat_eq_units {x : Float} {negative : Bool} {d : Decimal}
    (hx : ofFloat x = .finite negative significand shift)
    (hd : d.toRat * unitsPerOne = (significand * 2 ^ shift : Nat)) : d.nearest negative = x := by
  obtain ⟨hcanonical, hbits⟩ := ofFloat_eq_finite hx
  have hrounds : Rounds significand shift (d.toRat * unitsPerOne) := by
    refine Rounds.of_below ?_ le_rfl one_half_pos.le (fun _ => one_half_pos) fun _ _ => by norm_num
    rw [hd, Nat.cast_mul, Nat.cast_pow, Nat.cast_ofNat, mul_div_cancel_right₀ _ (by positivity), sub_zero]
  exact (nearest_eq_pack negative hcanonical hrounds).trans hbits.symm

end Decimal

/-! ### The text of a float -/

/-- The text of a float without its sign. -/
def displayed (significand shift : Nat) : List Char :=
  if significand * Nat.pow 2 shift % unitsPerOne = 0 then
    Nat.toDigits 10 (significand * Nat.pow 2 shift / unitsPerOne) ++ ['.', '0']
  else (Decimal.shortest .up significand shift).positional

theorem toList_floatText {x : Float} {negative : Bool} {significand shift : Nat}
    (hx : ofFloat x = .finite negative significand shift) :
    (floatText x).toList = (if negative then ['-'] else []) ++ displayed significand shift := by
  rw [floatText, hx, String.toList_ofList]
  cases negative <;> rfl

section

variable {significand shift : Nat}

/-- Digits stand on both sides of the point. -/
theorem displayed_eq_point (hcanonical : Canonical significand shift) :
    ∃ whole fraction, displayed significand shift = whole ++ '.' :: fraction ∧
      (whole ≠ [] ∧ ∀ char ∈ whole, char.isDigit = true) ∧
      (fraction ≠ [] ∧ ∀ char ∈ fraction, char.isDigit = true) := by
  unfold displayed
  split_ifs with hwhole
  · exact ⟨_, ['0'], rfl, ⟨Nat.toDigits_ne_nil, fun _ => isDigit_of_mem_toDigits⟩, by simp⟩
  · have hpoint := Decimal.exponent_shortest_neg .up hcanonical (hwhole ∘ Nat.mod_eq_zero_of_dvd)
    obtain ⟨whole, fraction, hlayout, hdigits, hfraction, -, hplaces⟩ := Decimal.positional_eq_point _ hpoint
    refine ⟨whole, fraction, hlayout, hdigits, ?_, hfraction⟩
    rintro rfl
    rw [← hplaces] at hpoint
    exact absurd hpoint (by decide)

theorem read?_displayed {x : Float} {negative : Bool} (hx : ofFloat x = .finite negative significand shift) :
    (Decimal.read? (displayed significand shift)).map (Decimal.nearest negative) = some x := by
  obtain ⟨hcanonical, -⟩ := ofFloat_eq_finite hx
  unfold displayed
  split_ifs with hwhole
  · generalize hn : significand * Nat.pow 2 shift / unitsPerOne = n
    have hunits : significand * 2 ^ shift = n * unitsPerOne := by
      rw [← hn]
      exact (Nat.div_mul_cancel (Nat.dvd_of_mod_eq_zero hwhole)).symm
    have hread := Decimal.read?_positional_point ⟨n, 0⟩ le_rfl
    have hvalue := Decimal.toRat_whole ⟨n, 0⟩ le_rfl
    rw [show Decimal.positional ⟨n, 0⟩ = Nat.toDigits 10 n from List.append_nil _] at hread
    rw [hread, Option.map_some, Decimal.nearest_eq_of_toRat_eq_units hx]
    rw [hvalue, hunits, Nat.cast_mul, Decimal.toRat, zpow_zero, mul_one]
  · have hpoint := Decimal.exponent_shortest_neg .up hcanonical (hwhole ∘ Nat.mod_eq_zero_of_dvd)
    rw [Decimal.read?_positional _ hpoint, Option.map_some, Decimal.nearest_eq_of_toRat_eq hx rfl]

end

theorem readFloat?_of_isDigit {text : List Char} (h : ∀ char ∈ text.head?, char.isDigit = true) :
    readFloat? text = (Decimal.read? text).map (Decimal.nearest false) := by
  rw [readFloat?, splitSign_of_isDigit h]

/-- The text of a finite float is read as the float. -/
theorem readFloat?_floatText {x : Float} {negative : Bool} {significand shift : Nat}
    (hx : ofFloat x = .finite negative significand shift) : readFloat? (floatText x).toList = some x := by
  obtain ⟨hcanonical, -⟩ := ofFloat_eq_finite hx
  rw [toList_floatText hx]
  cases negative with
  | true => exact read?_displayed hx
  | false =>
      obtain ⟨whole, fraction, hlayout, ⟨hne, hdigits⟩, -⟩ := displayed_eq_point hcanonical
      have hhead : ∀ char ∈ (displayed significand shift).head?, char.isDigit = true := by
        rw [hlayout, List.head?_append_of_ne_nil _ hne]
        exact fun char hchar => hdigits char (List.mem_of_mem_head? hchar)
      exact (readFloat?_of_isDigit hhead).trans (read?_displayed hx)

end ScriptLang
