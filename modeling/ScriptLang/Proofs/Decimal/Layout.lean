import Mathlib
import ScriptLang.Json
import ScriptLang.Proofs.Binary64.Rounding
import ScriptLang.Proofs.Text.Literal
/-!
# Numerals read back

A numeral that is laid out with a point is read by the rule for numbers of a program. One that is laid out with an
exponent may have no point, so `readNumeral?` makes it optional. Either way the value is the one that was laid out,
though not always with the same coefficient: `10.0` is read with a zero more than `10` was written with.
-/

namespace ScriptLang

/-! ### The end of a run of characters -/

section

variable {condition : Char → Bool} {inside rest : List Char}

theorem takeWhile_append_of_head (hinside : ∀ char ∈ inside, condition char = true)
    (hrest : ∀ char ∈ rest.head?, condition char = false) : (inside ++ rest).takeWhile condition = inside := by
  rw [List.takeWhile_append_of_pos hinside]
  cases rest with
  | nil => rw [List.takeWhile_nil, List.append_nil]
  | cons char rest => rw [List.takeWhile_cons_of_neg (by simp [hrest char rfl]), List.append_nil]

theorem dropWhile_append_of_head (hinside : ∀ char ∈ inside, condition char = true)
    (hrest : ∀ char ∈ rest.head?, condition char = false) : (inside ++ rest).dropWhile condition = rest := by
  rw [List.dropWhile_append_of_pos hinside]
  cases rest with
  | nil => rfl
  | cons char rest => rw [List.dropWhile_cons_of_neg (by simp [hrest char rfl])]

end

/-! ### Whole numbers with a sign -/

theorem isDigit_of_mem_toDigits {n : Nat} {char : Char} (h : char ∈ Nat.toDigits 10 n) : char.isDigit = true :=
  Nat.isDigit_of_mem_toDigits (by decide) (by decide) h

theorem readInt?_toDigits (n : Nat) : readInt? (Nat.toDigits 10 n) = some (n : Int) := by
  rw [readInt?_digits Nat.toDigits_ne_nil fun _ => isDigit_of_mem_toDigits, Nat.ofDigitChars_ten_toDigits]

theorem readInt?_plus (n : Nat) : readInt? ('+' :: Nat.toDigits 10 n) = some (n : Int) := by
  rw [← readInt?_toDigits n, readInt?, readInt?, splitSign,
    splitSign_of_isDigit fun char hchar => isDigit_of_mem_toDigits (List.mem_of_mem_head? hchar)]

theorem readInt?_minus (n : Nat) : readInt? ('-' :: Nat.toDigits 10 n) = some (-n : Int) := by
  have hall : (Nat.toDigits 10 n).all Char.isDigit = true := List.all_eq_true.mpr fun _ => isDigit_of_mem_toDigits
  rw [readInt?, splitSign]
  simp [hall, Binary64.signed]

theorem readInt?_repr (n : Int) : readInt? n.repr.toList = some n := by
  rw [Int.repr_eq_if]
  split_ifs with hnonneg
  · rw [Nat.toList_repr, readInt?_toDigits, Int.toNat_of_nonneg hnonneg]
  · rw [String.toList_append, Nat.toList_repr]
    have := readInt?_minus (-n).toNat
    rw [Int.toNat_of_nonneg (by omega), Int.neg_neg] at this
    exact this

/-- An exponent with its sign. -/
theorem readExponent?_signed (power : Int) :
    readExponent? ('e' :: (if power < 0 then '-' else '+') :: Nat.toDigits 10 power.natAbs) = some power := by
  rw [readExponent?, if_pos (.inl rfl)]
  split_ifs with hneg
  · rw [readInt?_minus]
    congr 1
    omega
  · rw [readInt?_plus]
    congr 1
    omega

namespace Decimal

/-! ### Numerals with a point -/

section

variable {whole fraction rest : List Char} {exponent : Int} {d : Decimal}

/-- Digits around a point, and what follows them. -/
theorem read?_point (hwhole : whole ≠ [] ∧ ∀ char ∈ whole, char.isDigit = true)
    (hfraction : ∀ char ∈ fraction, char.isDigit = true) (hrest : ∀ char ∈ rest.head?, char.isDigit = false)
    (hexponent : readExponent? rest = some exponent)
    (hcoefficient : Nat.ofDigitChars 10 (whole ++ fraction) 0 = d.coefficient)
    (hplaces : exponent - fraction.length = d.exponent) : read? (whole ++ '.' :: (fraction ++ rest)) = some d := by
  have hpoint : ∀ char ∈ ('.' :: (fraction ++ rest)).head?, char.isDigit = false := by
    rintro char ⟨⟩
    rfl
  rw [read?, dropWhile_append_of_head hwhole.2 hpoint, takeWhile_append_of_head hwhole.2 hpoint]
  show (do
    let exponent ← readExponent? ((fraction ++ rest).dropWhile Char.isDigit)
    _) = _
  rw [takeWhile_append_of_head hfraction hrest, dropWhile_append_of_head hfraction hrest, hexponent, hcoefficient]
  simp [hwhole.1, hplaces]

theorem read?_fraction (hwhole : whole ≠ [] ∧ ∀ char ∈ whole, char.isDigit = true)
    (hfraction : ∀ char ∈ fraction, char.isDigit = true)
    (hcoefficient : Nat.ofDigitChars 10 (whole ++ fraction) 0 = d.coefficient)
    (hplaces : -(fraction.length : Int) = d.exponent) : read? (whole ++ '.' :: fraction) = some d := by
  have hread := @read?_point whole fraction [] 0 d hwhole hfraction nofun rfl hcoefficient (by omega)
  rwa [List.append_nil] at hread

end

section

variable (d : Decimal)

theorem isDigit_of_mem_digits {char : Char} (h : char ∈ d.digits) : char.isDigit = true :=
  isDigit_of_mem_toDigits h

theorem ofDigitChars_digits : Nat.ofDigitChars 10 d.digits 0 = d.coefficient :=
  Nat.ofDigitChars_ten_toDigits

theorem take_digits {count : Nat} (h : count ≠ 0) :
    d.digits.take count ≠ [] ∧ ∀ char ∈ d.digits.take count, char.isDigit = true := by
  refine ⟨?_, fun char hchar => d.isDigit_of_mem_digits (List.mem_of_mem_take hchar)⟩
  rw [Ne, List.take_eq_nil_iff, not_or]
  exact ⟨h, Nat.toDigits_ne_nil⟩

theorem isDigit_of_mem_zeros {char : Char} {count : Nat} (h : char ∈ List.replicate count '0') :
    char.isDigit = true := by
  rw [List.eq_of_mem_replicate h]
  rfl

/-- A numeral with a negative exponent has digits on both sides of a point. -/
theorem positional_eq_point (h : d.exponent < 0) : ∃ whole fraction, d.positional = whole ++ '.' :: fraction ∧
    (whole ≠ [] ∧ ∀ char ∈ whole, char.isDigit = true) ∧ (∀ char ∈ fraction, char.isDigit = true) ∧
    Nat.ofDigitChars 10 (whole ++ fraction) 0 = d.coefficient ∧ -(fraction.length : Int) = d.exponent := by
  obtain ⟨places, hplaces⟩ : ∃ places, d.exponent = .negSucc places := Int.eq_negSucc_of_lt_zero h
  rw [positional, hplaces]
  dsimp only
  split_ifs with hwhole
  · refine ⟨['0'], List.replicate (places + 1 - d.digits.length) '0' ++ d.digits, rfl, ⟨nofun, by simp⟩, ?_, ?_,
      ?_⟩
    · intro char hchar
      exact (List.mem_append.mp hchar).elim isDigit_of_mem_zeros d.isDigit_of_mem_digits
    · rw [Nat.ofDigitChars_append, Nat.ofDigitChars_append, Nat.ofDigitChars_replicate_zero]
      exact d.ofDigitChars_digits
    · rw [List.length_append, List.length_replicate]
      omega
  · refine ⟨_, _, rfl, d.take_digits hwhole, ?_, ?_, ?_⟩
    · exact fun char hchar => d.isDigit_of_mem_digits (List.mem_of_mem_drop hchar)
    · rw [List.take_append_drop, ofDigitChars_digits]
    · rw [List.length_drop]
      omega

/-- One without is a whole number, and zeros follow its digits. -/
theorem positional_eq_whole (h : 0 ≤ d.exponent) :
    (d.positional ≠ [] ∧ ∀ char ∈ d.positional, char.isDigit = true) ∧
    Nat.ofDigitChars 10 d.positional 0 = d.coefficient * 10 ^ d.exponent.toNat := by
  obtain ⟨zeros, hzeros⟩ := Int.eq_ofNat_of_zero_le h
  rw [positional, hzeros]
  refine ⟨⟨by simp [digits], fun char hchar => ?_⟩, ?_⟩
  · exact (List.mem_append.mp hchar).elim d.isDigit_of_mem_digits isDigit_of_mem_zeros
  · rw [Nat.ofDigitChars_append, ofDigitChars_digits, Nat.ofDigitChars_replicate_zero, Nat.mul_comm]
    rfl

/-- A fraction is read as it is written. -/
theorem read?_positional (h : d.exponent < 0) : read? d.positional = some d := by
  obtain ⟨whole, fraction, hlayout, hwhole, hfraction, hvalue, hplaces⟩ := d.positional_eq_point h
  rw [hlayout]
  exact read?_fraction hwhole hfraction hvalue hplaces

/-- A whole number is read as a fraction that ends in a zero. -/
theorem read?_positional_point (h : 0 ≤ d.exponent) :
    read? (d.positional ++ ['.', '0']) = some ⟨d.coefficient * 10 ^ (d.exponent.toNat + 1), -1⟩ := by
  obtain ⟨hwhole, hvalue⟩ := d.positional_eq_whole h
  apply read?_fraction hwhole (by simp) _ rfl
  rw [Nat.ofDigitChars_append, hvalue]
  show 10 * (d.coefficient * 10 ^ d.exponent.toNat) + 0 = _
  ring

theorem toRat_whole (h : 0 ≤ d.exponent) :
    toRat ⟨d.coefficient * 10 ^ (d.exponent.toNat + 1), -1⟩ = d.toRat := by
  obtain ⟨zeros, hzeros⟩ := Int.eq_ofNat_of_zero_le h
  rw [toRat, toRat, hzeros, zpow_natCast, Int.toNat_natCast]
  push_cast
  rw [pow_succ]
  field_simp

end

/-! ### Numerals with an exponent -/

/-- A numeral that may do without a point. -/
def readNumeral? (text : List Char) : Option Decimal :=
  match text.dropWhile Char.isDigit with
  | '.' :: _ => read? text
  | rest => (readExponent? rest).map (⟨Nat.ofDigitChars 10 (text.takeWhile Char.isDigit) 0, ·⟩)

theorem readNumeral?_of_read? {text : List Char} {d : Decimal} (h : read? text = some d) :
    readNumeral? text = some d := by
  unfold readNumeral?
  split
  next => exact h
  next hpoint =>
    unfold read? at h
    split at h
    next rest hrest => exact absurd hrest (hpoint rest)
    next => cases h

theorem readNumeral?_scientific (d : Decimal) : readNumeral? d.scientific = some d := by
  have hdigits : ∀ char ∈ d.digits, char.isDigit = true := fun _ => d.isDigit_of_mem_digits
  have hlength := d.length_digits_pos
  have hexponent := readExponent?_signed d.leadingPower
  generalize hmark : 'e' :: (if d.leadingPower < 0 then '-' else '+') :: Nat.toDigits 10 d.leadingPower.natAbs = mark
    at hexponent
  have hhead : ∀ char ∈ mark.head?, char.isDigit = false := by
    rw [← hmark]
    rintro char ⟨⟩
    rfl
  rw [scientific, hmark]
  split
  next hone =>
    have hsingle : d.digits.length ≤ 1 := List.drop_eq_nil_iff.mp hone
    rw [List.append_nil, List.take_of_length_le hsingle]
    have hpower : d.leadingPower = d.exponent := by
      rw [leadingPower]
      omega
    unfold readNumeral?
    rw [dropWhile_append_of_head hdigits hhead, takeWhile_append_of_head hdigits hhead, ofDigitChars_digits]
    subst hmark
    show (readExponent? _).map _ = _
    rw [hexponent, hpower]
    rfl
  next hmore =>
    apply readNumeral?_of_read?
    rw [List.append_assoc, List.cons_append]
    refine read?_point (d.take_digits one_ne_zero) (fun char hchar => hdigits char (List.mem_of_mem_drop hchar)) hhead
      hexponent ?_ ?_
    · rw [List.take_append_drop, ofDigitChars_digits]
    · rw [List.length_drop, leadingPower]
      omega

theorem readNumeral?_numeral (d : Decimal) : ∃ r, readNumeral? (Json.numeral d) = some r ∧ r.toRat = d.toRat := by
  unfold Json.numeral
  split_ifs with hplain hwhole
  · exact ⟨_, readNumeral?_of_read? (d.read?_positional_point hwhole), d.toRat_whole hwhole⟩
  · exact ⟨d, readNumeral?_of_read? (d.read?_positional (by omega)), rfl⟩
  · exact ⟨d, d.readNumeral?_scientific, rfl⟩

end Decimal

end ScriptLang
