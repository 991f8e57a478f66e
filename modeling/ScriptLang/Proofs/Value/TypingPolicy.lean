import Mathlib
import ScriptLang.Proofs.Binary64.Bits
import ScriptLang.Proofs.Execution.WholeNumbers
/-!
# When operators fail

Whether an operator gives a value, and which error it reports if not, is decided by the kinds of its operands and by
three properties of their values: whether a divisor is zero, whether an exact result fits into a word, and whether a
whole number that meets a float is small enough to be one. `Computes` lists the rules in the order in which they are
applied; no two of them apply to the same operands, so the rule of an error is also the only cause of it.
-/

namespace ScriptLang

/-! ### Zeros -/

namespace Binary64

theorem signed_eq_zero_iff {negative : Bool} {magnitude : Nat} : signed negative magnitude = 0 ↔ magnitude = 0 := by
  cases negative <;> simp [signed]

theorem rank?_eq_zero_iff {number : Binary64} :
    number.rank? = some 0 ↔ ∃ negative shift, number = .finite negative 0 shift := by
  cases number with
  | nan => simp [rank?]
  | infinite negative =>
      rw [rank?, Option.some_inj, signed_eq_zero_iff]
      generalize 2046 = exponent
      have hpos : 0 < leadingOne * Nat.pow 2 exponent := Nat.mul_pos (by decide) (Nat.pow_pos two_pos)
      exact iff_of_false hpos.ne' nofun
  | finite negative significand shift =>
      have hpos : 0 < Nat.pow 2 shift := Nat.pow_pos two_pos
      rw [rank?, Option.some_inj, signed_eq_zero_iff, Nat.mul_eq_zero, or_iff_left hpos.ne']
      constructor
      · rintro rfl
        exact ⟨negative, shift, rfl⟩
      · rintro ⟨_, _, hzero⟩
        exact (finite.inj hzero).2.1

end Binary64

/-- There are two zeros among the floats. -/
theorem isZeroFloat_iff (x : Float) : isZeroFloat x = true ↔ x = 0.0 ∨ x = -0.0 := by
  rw [isZeroFloat, beq_iff_eq, Binary64.rank?_eq_zero_iff]
  constructor
  · rintro ⟨negative, shift, hx⟩
    obtain ⟨hcanonical, hpack⟩ := Binary64.ofFloat_eq_finite hx
    obtain rfl := hcanonical.shift_eq_zero
    rw [hpack]
    cases negative with
    | false => exact .inl rfl
    | true => exact .inr rfl
  · rintro (rfl | rfl)
    · exact ⟨false, 0, rfl⟩
    · exact ⟨true, 0, rfl⟩

namespace Value

/-- A number that is zero, of either kind and with either sign. -/
def IsZeroNumber (value : Value) : Prop :=
  value = .int 0 ∨ value = .float 0.0 ∨ value = .float (-0.0)

theorem isZero_iff {value : Value} : value.isZero = true ↔ value.IsZeroNumber := by
  cases value <;> simp [isZero, IsZeroNumber, isZeroFloat_iff]

/-! ### Causes of errors -/

def DividesByZero (operator : Operator) (right : Value) : Prop :=
  operator = .divide ∧ right.IsZeroNumber

/-- No word holds the exact result of two whole numbers. -/
def Overflows (operator : Operator) (left right : Value) : Prop :=
  operator ≠ .divide ∧ ∃ a b, left = .int a ∧ right = .int b ∧ ¬FitsWord (operator.exact a.toInt b.toInt)

/-- Exactly one of the two values is a float, and the other one is this whole number. -/
def MeetsFloat (n : Int64) (left right : Value) : Prop :=
  (left = .int n ∧ ∃ x, right = .float x) ∨ ((∃ x, left = .float x) ∧ right = .int n)

/-- The whole number has a magnitude beyond those that floats hold one by one, and meets a float. -/
def MeetsFloatTooLarge (n : Int64) (left right : Value) : Prop :=
  MeetsFloat n left right ∧ 2 ^ 53 < n.toInt.natAbs

def AreNumbers (left right : Value) : Prop :=
  left.isNumber = true ∧ right.isNumber = true

def AreTexts (left right : Value) : Prop :=
  ∃ a b, left = .string a ∧ right = .string b

/-! ### The rules of arithmetic -/

/-- The value of an operation that does not fail: an exact whole number, a concatenation, and a float otherwise. -/
inductive Gives (operator : Operator) : Value → Value → Value → Prop
  | whole {a b n : Int64} (hoperator : operator ≠ .divide) (hexact : n.toInt = operator.exact a.toInt b.toInt) :
      Gives operator (.int a) (.int b) (.int n)
  | concatenation {a b : String} (hoperator : operator = .add) :
      Gives operator (.string a) (.string b) (.string (a ++ b))
  | float {left right : Value} {x : Float} (hnumbers : AreNumbers left right)
      (hwhole : operator = .divide ∨ ¬∃ a b, left = .int a ∧ right = .int b) :
      Gives operator left right (.float x)

/-- The result of one of the operators `+`, `-`, `*` and `/`, rule by rule. -/
inductive Computes (operator : Operator) (left right : Value) : Except RuntimeError Value → Prop
  | divisionByZero (hzero : DividesByZero operator right) : Computes operator left right (.error .divisionByZero)
  | overflow (hoverflow : Overflows operator left right) :
      Computes operator left right (.error (.overflow operator.symbol))
  | integerTooLarge {n : Int64} (hzero : ¬DividesByZero operator right) (hlarge : MeetsFloatTooLarge n left right) :
      Computes operator left right (.error (.integerTooLarge n))
  | typeMismatch (hzero : ¬DividesByZero operator right) (hnumbers : ¬AreNumbers left right)
      (htexts : ¬(operator = .add ∧ AreTexts left right)) :
      Computes operator left right (.error (.typeMismatch operator left.kind right.kind))
  | value {value : Value} (hzero : ¬DividesByZero operator right) (hlarge : ∀ n, ¬MeetsFloatTooLarge n left right)
      (hoverflow : ¬Overflows operator left right) (hgives : Gives operator left right value) :
      Computes operator left right (.ok value)

theorem exists_toFloat?_of_isNumber {value : Value} (hnumber : value.isNumber = true)
    (hsmall : ∀ n, value = .int n → n.toInt.natAbs ≤ 2 ^ 53) : ∃ x, value.toFloat? = .ok (some x) := by
  cases value with
  | int n =>
      have hsome : floatOfInt? n.toInt = some (nearestFloatOfInt n.toInt) := if_pos (hsmall n rfl)
      refine ⟨nearestFloatOfInt n.toInt, ?_⟩
      rw [toFloat?, hsome]
  | float x => exact ⟨x, rfl⟩
  | _ => cases hnumber

/-- Two numbers of which one is a float are both floats, unless the other one is too large. -/
theorem exists_toFloat? {left right : Value} (hnumbers : AreNumbers left right)
    (hints : ¬∃ a b, left = .int a ∧ right = .int b) (hlarge : ¬∃ n, MeetsFloatTooLarge n left right) :
    (∃ a, left.toFloat? = .ok (some a)) ∧ ∃ b, right.toFloat? = .ok (some b) := by
  have hsmall (n : Int64) (hmeets : MeetsFloat n left right) : n.toInt.natAbs ≤ 2 ^ 53 :=
    not_lt.mp fun h => hlarge ⟨n, hmeets, h⟩
  constructor
  · apply exists_toFloat?_of_isNumber hnumbers.1
    rintro n rfl
    apply hsmall
    cases right with
    | int b => exact absurd ⟨n, b, rfl, rfl⟩ hints
    | float x => exact .inl ⟨rfl, x, rfl⟩
    | _ => cases hnumbers.2
  · apply exists_toFloat?_of_isNumber hnumbers.2
    rintro n rfl
    apply hsmall
    cases left with
    | int a => exact absurd ⟨a, n, rfl, rfl⟩ hints
    | float x => exact .inr ⟨⟨x, rfl⟩, rfl⟩
    | _ => cases hnumbers.1

section

variable {operator : Operator} (hoperator : operator.isComparison = false)

include hoperator

theorem floatArithmetic_eq_ok (a b : Float) : ∃ x, floatArithmetic operator a b = .ok (.float x) := by
  cases operator with
  | add | subtract | multiply | divide => exact ⟨_, rfl⟩
  | _ => cases hoperator

theorem mem_of_ne_divide (hdivide : operator ≠ .divide) : operator ∈ [Operator.add, .subtract, .multiply] := by
  cases operator with
  | add | subtract | multiply => decide
  | divide => exact absurd rfl hdivide
  | _ => cases hoperator

theorem binary_eq_arithmetic (left right : Value) : binary operator left right = arithmetic operator left right :=
  if_neg (Bool.not_eq_true _ ▸ hoperator)

/-- Two whole numbers: a quotient is a float, and anything else is exact or overflows. -/
theorem computes_ints {a b : Int64} (hzero : ¬DividesByZero operator (.int b)) :
    Computes operator (.int a) (.int b) (binary operator (.int a) (.int b)) := by
  have hlarge (n : Int64) : ¬MeetsFloatTooLarge n (.int a) (.int b) := by simp [MeetsFloatTooLarge, MeetsFloat]
  by_cases hdivide : operator = .divide
  · subst hdivide
    have hdivisor : ¬(Value.int b).isZero = true := fun h => hzero ⟨rfl, isZero_iff.mp h⟩
    rw [binary_eq_arithmetic hoperator, arithmetic, if_neg fun h => hdivisor h.2]
    exact .value hzero hlarge (fun h => h.1 rfl) (.float ⟨rfl, rfl⟩ (.inl rfl))
  · rw [binary_int (mem_of_ne_divide hoperator hdivide)]
    by_cases hfits : FitsWord (operator.exact a.toInt b.toInt)
    · obtain ⟨n, hresult, hexact⟩ := ofExact_of_fitsWord operator.symbol hfits
      rw [hresult]
      refine .value hzero hlarge ?_ (.whole hdivide hexact)
      rintro ⟨_, _, _, ⟨⟩, ⟨⟩, houtside⟩
      exact houtside hfits
    · rw [ofExact_of_not_fitsWord _ hfits]
      exact .overflow ⟨hdivide, a, b, rfl, rfl, hfits⟩

section

variable {left right : Value} (hzero : ¬DividesByZero operator right)

include hzero

theorem binary_numbers (hnumbers : AreNumbers left right) (hints : ¬∃ a b, left = .int a ∧ right = .int b)
    {a b : Float} (hleft : left.toFloat? = .ok (some a)) (hright : right.toFloat? = .ok (some b)) :
    binary operator left right = floatArithmetic operator a b := by
  obtain ⟨hleftNumber, hrightNumber⟩ := hnumbers
  rw [binary_eq_arithmetic hoperator]
  unfold arithmetic
  rw [if_neg fun h => hzero ⟨h.1, isZero_iff.mp h.2⟩]
  split
  · exact absurd ⟨_, _, rfl, rfl⟩ hints
  · cases hleftNumber
  · rw [hleftNumber, hrightNumber, hleft, hright]
    rfl

theorem binary_tooLarge {n : Int64} (hlarge : MeetsFloatTooLarge n left right) :
    binary operator left right = .error (.integerTooLarge n) := by
  obtain ⟨hmeets, hmagnitude⟩ := hlarge
  have hfloat : toFloat? (.int n) = .error (.integerTooLarge n) := by
    have hnone : floatOfInt? n.toInt = none := if_neg (Nat.not_le_of_lt hmagnitude)
    rw [toFloat?, hnone]
  rw [binary_eq_arithmetic hoperator]
  unfold arithmetic
  rw [if_neg fun h => hzero ⟨h.1, isZero_iff.mp h.2⟩]
  rcases hmeets with ⟨rfl, x, rfl⟩ | ⟨⟨x, rfl⟩, rfl⟩
  · simp only [isNumber, hfloat]
    rfl
  · simp only [isNumber, hfloat]
    rfl

theorem binary_mismatch (hnumbers : ¬AreNumbers left right) (htexts : ¬(operator = .add ∧ AreTexts left right)) :
    binary operator left right = .error (.typeMismatch operator left.kind right.kind) := by
  have hnone : (left.isNumber && right.isNumber) = false := by
    rw [Bool.eq_false_iff, Ne, Bool.and_eq_true]
    exact hnumbers
  rw [binary_eq_arithmetic hoperator]
  unfold arithmetic
  rw [if_neg fun h => hzero ⟨h.1, isZero_iff.mp h.2⟩]
  split
  · exact absurd ⟨rfl, rfl⟩ hnumbers
  · exact if_neg fun hadd => htexts ⟨hadd, _, _, rfl, rfl⟩
  · rw [hnone]
    rfl

end

theorem computes_binary (left right : Value) : Computes operator left right (binary operator left right) := by
  by_cases hzero : DividesByZero operator right
  · rw [binary_eq_arithmetic hoperator]
    unfold arithmetic
    rw [if_pos ⟨hzero.1, isZero_iff.mpr hzero.2⟩]
    exact .divisionByZero hzero
  by_cases hints : ∃ a b, left = .int a ∧ right = .int b
  · obtain ⟨a, b, rfl, rfl⟩ := hints
    exact computes_ints hoperator hzero
  have hoverflow : ¬Overflows operator left right := by
    rintro ⟨_, a, b, hleft, hright, _⟩
    exact hints ⟨a, b, hleft, hright⟩
  by_cases hlarge : ∃ n, MeetsFloatTooLarge n left right
  · obtain ⟨n, hn⟩ := hlarge
    rw [binary_tooLarge hoperator hzero hn]
    exact .integerTooLarge hzero hn
  by_cases hnumbers : AreNumbers left right
  · obtain ⟨⟨a, ha⟩, b, hb⟩ := exists_toFloat? hnumbers hints hlarge
    obtain ⟨x, hx⟩ := floatArithmetic_eq_ok hoperator a b
    rw [binary_numbers hoperator hzero hnumbers hints ha hb, hx]
    exact .value hzero (not_exists.mp hlarge) hoverflow (.float hnumbers (.inr hints))
  by_cases htexts : operator = .add ∧ AreTexts left right
  · obtain ⟨rfl, a, b, rfl, rfl⟩ := htexts
    exact .value hzero (not_exists.mp hlarge) hoverflow (.concatenation rfl)
  · rw [binary_mismatch hoperator hzero hnumbers htexts]
    exact .typeMismatch hzero hnumbers htexts

end

/-! ### One rule for each pair of operands -/

section

variable {operator : Operator} {left right : Value}

theorem Overflows.not_dividesByZero (h : Overflows operator left right) : ¬DividesByZero operator right :=
  fun hzero => h.1 hzero.1

theorem Overflows.areNumbers (h : Overflows operator left right) : AreNumbers left right := by
  obtain ⟨_, a, b, rfl, rfl, _⟩ := h
  exact ⟨rfl, rfl⟩

theorem Overflows.not_meetsFloat (h : Overflows operator left right) (n : Int64) : ¬MeetsFloat n left right := by
  obtain ⟨_, a, b, rfl, rfl, _⟩ := h
  rintro (⟨_, x, ⟨⟩⟩ | ⟨⟨x, ⟨⟩⟩, _⟩)

theorem MeetsFloat.areNumbers {n : Int64} (h : MeetsFloat n left right) : AreNumbers left right := by
  rcases h with ⟨rfl, x, rfl⟩ | ⟨⟨x, rfl⟩, rfl⟩
  · exact ⟨rfl, rfl⟩
  · exact ⟨rfl, rfl⟩

theorem MeetsFloat.unique {n m : Int64} (h : MeetsFloat n left right) (h' : MeetsFloat m left right) : n = m := by
  rcases h with ⟨rfl, x, rfl⟩ | ⟨⟨x, rfl⟩, rfl⟩
  · rcases h' with ⟨⟨⟩, _⟩ | ⟨⟨_, ⟨⟩⟩, _⟩
    rfl
  · rcases h' with ⟨⟨⟩, _⟩ | ⟨_, ⟨⟩⟩
    rfl

theorem Gives.areNumbers_or {value : Value} (h : Gives operator left right value) :
    AreNumbers left right ∨ operator = .add ∧ AreTexts left right := by
  cases h with
  | whole hoperator hexact => exact .inl ⟨rfl, rfl⟩
  | concatenation hoperator => exact .inr ⟨hoperator, _, _, rfl, rfl⟩
  | float hnumbers hwhole => exact .inl hnumbers

/-- An error whose rule applies is the result. -/
theorem Computes.eq_error {result : Except RuntimeError Value} {error : RuntimeError}
    (h : Computes operator left right result) (herror : Computes operator left right (.error error)) :
    result = .error error := by
  cases herror with
  | divisionByZero hzero =>
      cases h with
      | divisionByZero => rfl
      | overflow hoverflow => exact absurd hzero hoverflow.not_dividesByZero
      | integerTooLarge hzero' => exact absurd hzero hzero'
      | typeMismatch hzero' => exact absurd hzero hzero'
      | value hzero' => exact absurd hzero hzero'
  | overflow hoverflow =>
      cases h with
      | divisionByZero hzero => exact absurd hzero hoverflow.not_dividesByZero
      | overflow => rfl
      | integerTooLarge _ hlarge => exact absurd hlarge.1 (hoverflow.not_meetsFloat _)
      | typeMismatch _ hnumbers => exact absurd hoverflow.areNumbers hnumbers
      | value _ _ hoverflow' => exact absurd hoverflow hoverflow'
  | integerTooLarge hzero hlarge =>
      cases h with
      | divisionByZero hzero' => exact absurd hzero' hzero
      | overflow hoverflow => exact absurd hlarge.1 (hoverflow.not_meetsFloat _)
      | integerTooLarge _ hlarge' => rw [hlarge.1.unique hlarge'.1]
      | typeMismatch _ hnumbers => exact absurd hlarge.1.areNumbers hnumbers
      | value _ hlarge' => exact absurd hlarge (hlarge' _)
  | typeMismatch hzero hnumbers htexts =>
      cases h with
      | divisionByZero hzero' => exact absurd hzero' hzero
      | overflow hoverflow => exact absurd hoverflow.areNumbers hnumbers
      | integerTooLarge _ hlarge => exact absurd hlarge.1.areNumbers hnumbers
      | typeMismatch => rfl
      | value _ _ _ hgives => exact absurd hgives.areNumbers_or (not_or.mpr ⟨hnumbers, htexts⟩)

end

/-! ### The policy -/

/-- When `+`, `-`, `*` and `/` fail, and with which error, and what kind of value they have otherwise. -/
structure ArithmeticPolicy (operator : Operator) (left right : Value) (result : Except RuntimeError Value) : Prop where
  divisionByZero : result = .error .divisionByZero ↔ DividesByZero operator right
  overflow (symbol : String) :
    result = .error (.overflow symbol) ↔ symbol = operator.symbol ∧ Overflows operator left right
  integerTooLarge (n : Int64) :
    result = .error (.integerTooLarge n) ↔ ¬DividesByZero operator right ∧ MeetsFloatTooLarge n left right
  typeMismatch (shown : Operator) (leftKind rightKind : ValueKind) :
    result = .error (.typeMismatch shown leftKind rightKind) ↔
      (shown = operator ∧ leftKind = left.kind ∧ rightKind = right.kind) ∧
        ¬DividesByZero operator right ∧ ¬AreNumbers left right ∧ ¬(operator = .add ∧ AreTexts left right)
  success :
    (∃ value, result = .ok value) ↔
      ¬DividesByZero operator right ∧ ¬Overflows operator left right ∧ (∀ n, ¬MeetsFloatTooLarge n left right) ∧
        (AreNumbers left right ∨ operator = .add ∧ AreTexts left right)
  gives (value : Value) : result = .ok value → Gives operator left right value

theorem Computes.policy {operator : Operator} {left right : Value} {result : Except RuntimeError Value}
    (h : Computes operator left right result) : ArithmeticPolicy operator left right result where
  divisionByZero := by
    constructor
    · rintro rfl
      cases h with
      | divisionByZero hzero => exact hzero
    · exact fun hzero => h.eq_error (.divisionByZero hzero)
  overflow symbol := by
    constructor
    · rintro rfl
      cases h with
      | overflow hoverflow => exact ⟨rfl, hoverflow⟩
    · rintro ⟨rfl, hoverflow⟩
      exact h.eq_error (.overflow hoverflow)
  integerTooLarge n := by
    constructor
    · rintro rfl
      cases h with
      | integerTooLarge hzero hlarge => exact ⟨hzero, hlarge⟩
    · rintro ⟨hzero, hlarge⟩
      exact h.eq_error (.integerTooLarge hzero hlarge)
  typeMismatch shown leftKind rightKind := by
    constructor
    · rintro rfl
      cases h with
      | typeMismatch hzero hnumbers htexts => exact ⟨⟨rfl, rfl, rfl⟩, hzero, hnumbers, htexts⟩
    · rintro ⟨⟨rfl, rfl, rfl⟩, hzero, hnumbers, htexts⟩
      exact h.eq_error (.typeMismatch hzero hnumbers htexts)
  success := by
    constructor
    · rintro ⟨value, rfl⟩
      cases h with
      | value hzero hlarge hoverflow hgives => exact ⟨hzero, hoverflow, hlarge, hgives.areNumbers_or⟩
    · rintro ⟨hzero, hoverflow, hlarge, hkinds⟩
      cases h with
      | divisionByZero hzero' => exact absurd hzero' hzero
      | overflow hoverflow' => exact absurd hoverflow' hoverflow
      | integerTooLarge _ hlarge' => exact absurd hlarge' (hlarge _)
      | typeMismatch _ hnumbers htexts => exact absurd hkinds (not_or.mpr ⟨hnumbers, htexts⟩)
      | value => exact ⟨_, rfl⟩
  gives value := by
    rintro rfl
    cases h with
    | value _ _ _ hgives => exact hgives

/-! ### Comparisons -/

theorem order?_eq_none_iff {left right : Value} :
    left.order? right = none ↔ ¬AreNumbers left right ∧ ¬AreTexts left right := by
  cases left <;> cases right <;> simp [order?, AreNumbers, AreTexts, isNumber]

/-- When `<`, `<=`, `>` and `>=` fail, and with which error, and that they have a truth value otherwise. -/
structure OrderingPolicy (operator : Operator) (left right : Value) (result : Except RuntimeError Value) : Prop where
  typeMismatch (shown : Operator) (leftKind rightKind : ValueKind) :
    result = .error (.typeMismatch shown leftKind rightKind) ↔
      (shown = operator ∧ leftKind = left.kind ∧ rightKind = right.kind) ∧
        ¬AreNumbers left right ∧ ¬AreTexts left right
  success : AreNumbers left right ∨ AreTexts left right → ∃ truth, result = .ok (.bool truth)

theorem comparison_policy {operator : Operator}
    (hoperator : operator ∈ [Operator.less, .lessEqual, .greater, .greaterEqual]) (left right : Value) :
    OrderingPolicy operator left right (comparison operator left right) := by
  have hresult : comparison operator left right =
      (left.order? right).elim (.error (mismatch operator left right)) fun ordering =>
        .ok (.bool (holds operator ordering)) := by
    cases operator with
    | less | lessEqual | greater | greaterEqual =>
        rw [comparison]
        cases left.order? right <;> rfl
    | _ => simp at hoperator
  rw [hresult]
  cases horder : left.order? right with
  | none =>
      have hkinds := order?_eq_none_iff.mp horder
      constructor
      case typeMismatch =>
        intro shown leftKind rightKind
        constructor
        · rintro ⟨⟩
          exact ⟨⟨rfl, rfl, rfl⟩, hkinds⟩
        · rintro ⟨⟨rfl, rfl, rfl⟩, _⟩
          rfl
      case success => exact fun h => absurd h (not_or.mpr hkinds)
  | some ordering =>
      have hkinds : ¬(¬AreNumbers left right ∧ ¬AreTexts left right) := by
        rw [← order?_eq_none_iff, horder]
        exact Option.some_ne_none ordering
      constructor
      case typeMismatch => exact fun _ _ _ => iff_of_false nofun fun h => hkinds h.2
      case success => exact fun _ => ⟨_, rfl⟩

end Value

/-- Operators fail exactly as the kinds and the values of their operands tell. A divisor that is zero comes first,
whatever stands before it; then `+`, `-`, `*` and `/` fail if an exact result of whole numbers is out of the range of
words, if a whole number that meets a float is too large, and if the operands are neither two numbers nor two texts that
are joined, and for no other reason. Equality never fails, and an order fails only where there is none. -/
theorem Value.binary_policy (operator : Operator) (left right : Value) :
    (operator ∈ [Operator.add, .subtract, .multiply, .divide] →
      ArithmeticPolicy operator left right (binary operator left right)) ∧
    (operator ∈ [Operator.equal, .notEqual] → ∃ truth, binary operator left right = .ok (.bool truth)) ∧
    (operator ∈ [Operator.less, .lessEqual, .greater, .greaterEqual] →
      OrderingPolicy operator left right (binary operator left right)) := by
  refine ⟨fun hoperator => ?_, fun hoperator => ?_, fun hoperator => ?_⟩
  · have harithmetic : operator.isComparison = false := by
      revert operator
      decide
    exact (computes_binary harithmetic left right).policy
  · simp only [List.mem_cons, List.not_mem_nil, or_false] at hoperator
    rcases hoperator with rfl | rfl
    · exact ⟨_, rfl⟩
    · exact ⟨_, rfl⟩
  · have hbinary : binary operator left right = comparison operator left right := by
      apply if_pos
      revert operator
      decide
    rw [hbinary]
    exact comparison_policy hoperator left right

/-- A divisor is looked at before the kinds, and a whole number that meets a float before the sum is taken. -/
example :
    Value.binary .divide .null (.float (-0.0)) = .error .divisionByZero ∧
      Value.binary .add (.float 0.5) (.int 9007199254740993) = .error (.integerTooLarge 9007199254740993) :=
  ⟨rfl, rfl⟩

end ScriptLang
