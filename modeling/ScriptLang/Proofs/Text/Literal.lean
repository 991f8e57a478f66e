import ScriptLang.Grammar.Expr
import ScriptLang.Proofs.Token.Pattern
/-!
# Writing literals

How a text and a whole number are written so that they read back. In a quoted text only a backslash and a
quote are escaped. All other characters stand for themselves, the end of a line among them, so decoding meets
no escape but these two and no code at all.
-/

namespace ScriptLang

namespace Escape

/-- A backslash before every backslash and every quote. -/
def escaped : List Char → List Char
  | [] => []
  | char :: rest => if char = '\\' ∨ char = '"' then '\\' :: char :: escaped rest else char :: escaped rest

/-- A text between quotes. -/
def quoted (text : String) : List Char :=
  '"' :: (escaped text.toList ++ ['"'])

theorem matches_escaped (text : List Char) : (Pattern.many .stringUnit).Matches (escaped text) := by
  induction text with
  | nil => exact .manyNil
  | cons char rest ih =>
      by_cases hescape : char = '\\' ∨ char = '"'
      · have hline : char ≠ '\n' := by rcases hescape with rfl | rfl <;> decide
        rw [escaped, if_pos hescape]
        exact .manyCons (Pattern.matches_stringUnit_iff.mpr (.inr ⟨char, rfl, hline⟩)) ih
      · obtain ⟨hbackslash, hquote⟩ := not_or.mp hescape
        rw [escaped, if_neg hescape]
        exact .manyCons (Pattern.matches_stringUnit_iff.mpr (.inl ⟨char, rfl, hquote, hbackslash⟩)) ih

theorem matches_quoted (text : String) : Pattern.string.Matches (quoted text) :=
  Pattern.matches_string_iff.mpr ⟨escaped text.toList, rfl, matches_escaped text.toList⟩

theorem segments_escaped (text : List Char) :
    segments (escaped text) = text.map fun char => .verbatim [char] := by
  induction text with
  | nil => rw [escaped, segments_nil, List.map_nil]
  | cons char rest ih =>
      rw [escaped, List.map_cons, ← ih]
      by_cases hescape : char = '\\' ∨ char = '"'
      · have hoctal : isOctalDigit char = false := by rcases hescape with rfl | rfl <;> decide
        have hhex : hexCount? char = none := by rcases hescape with rfl | rfl <;> rfl
        have hsimple : simple char = [char] := by rcases hescape with rfl | rfl <;> rfl
        rw [if_pos hescape, segments_of_first? (first?_simple _ hoctal hhex), hsimple]
      · have hbackslash := (not_or.mp hescape).1
        rw [if_neg hescape, segments_of_first? (first?_plain _ hbackslash)]

theorem decode_escaped (text : List Char) : decode (escaped text) = text := by
  have hvalues : (text.map fun char => Segment.verbatim [char]).mapM Segment.value? =
      some (text.map fun char => [char]) := by
    induction text with
    | nil => rfl
    | cons char rest ih =>
        rw [List.map_cons, List.mapM_cons, ih]
        rfl
  rw [decode, segments_escaped, hvalues]
  exact List.flatMap_singleton' text

theorem inner_quoted (text : String) : inner (quoted text) = escaped text.toList := by
  simp [inner, quoted]

end Escape

theorem literalText_quoted (text : String) : literalText (String.ofList (Escape.quoted text)) = text := by
  rw [literalText, String.toList_ofList, Escape.inner_quoted, Escape.decode_escaped, String.ofList_toList]

/-! ### Whole numbers -/

/-- The digits of a number that is not negative. -/
def digitsOf (value : Int64) : List Char :=
  Nat.toDigits 10 value.toInt.toNat

theorem matches_digitsOf (value : Int64) : Pattern.digit.atLeastOne.Matches (digitsOf value) := by
  refine Pattern.matches_digits_iff.mpr ⟨Nat.toDigits_ne_nil, fun char hchar => ?_⟩
  exact Nat.isDigit_of_mem_toDigits (by decide) (by decide) hchar

theorem splitSign_of_isDigit {text : List Char} (h : ∀ char ∈ text.head?, char.isDigit = true) :
    splitSign text = (false, text) := by
  unfold splitSign
  split
  · exact absurd (h '-' rfl) (by decide)
  · exact absurd (h '+' rfl) (by decide)
  · rfl

theorem readInt?_digits {digits : List Char} (hne : digits ≠ []) (hdigits : ∀ char ∈ digits, char.isDigit = true) :
    readInt? digits = some (Nat.ofDigitChars 10 digits 0 : Int) := by
  have hsign : splitSign digits = (false, digits) :=
    splitSign_of_isDigit fun char hchar => hdigits char (List.mem_of_mem_head? hchar)
  have hall : digits.all Char.isDigit = true := List.all_eq_true.mpr hdigits
  have hempty : digits.isEmpty = false := List.isEmpty_eq_false_iff.mpr hne
  rw [readInt?, hsign]
  simp [hall, hempty, Binary64.signed]

theorem int64?_toInt (value : Int64) : int64? value.toInt = some value := by
  rw [int64?, if_pos ⟨value.minValue_le_toInt, value.toInt_le⟩, Int64.ofInt_toInt]

theorem numberOf?_digitsOf {value : Int64} (h : 0 ≤ value.toInt) :
    Grammar.numberOf? (String.ofList (digitsOf value)) = some (.int value) := by
  obtain ⟨hne, hdigits⟩ := Pattern.matches_digits_iff.mp (matches_digitsOf value)
  have hpoint : (digitsOf value).contains '.' = false := by
    rw [List.contains_eq_mem, decide_eq_false]
    exact fun hmem => absurd (hdigits '.' hmem) (by decide)
  have hvalue : Nat.ofDigitChars 10 (digitsOf value) 0 = value.toInt.toNat := Nat.ofDigitChars_ten_toDigits
  rw [Grammar.numberOf?, String.toList_ofList, hpoint, readInt?_digits hne hdigits, hvalue, Int.toNat_of_nonneg h]
  simp [int64?_toInt]

end ScriptLang
