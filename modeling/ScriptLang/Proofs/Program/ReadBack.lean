import Mathlib
import ScriptLang.Proofs.Decimal.Display
import ScriptLang.Proofs.Execution.Ending
import ScriptLang.Proofs.Json.Reading
import ScriptLang.Proofs.Program.RoundTrip
import ScriptLang.Proofs.Value.TypingPolicy
/-!
# Displayed numbers read back

Literals have no sign, so the text of a negative number is not a literal but the negation of one. `IsWritten` says that
the text of a value is the layout of an expression that computes the value. For a number that expression is a literal or
a negated literal, with the sign of the number deciding between the two; the least whole number alone has no such
expression, since the number without its sign does not fit into a word.
-/

namespace ScriptLang

open Binary64 Grammar

/-! ### Signs -/

namespace Value

def IsFiniteNumber : Value → Prop
  | .int _ => True
  | .float x => x.isFinite = true
  | _ => False

/-- Numbers below zero, and the zero with a sign. -/
def isNegative : Value → Bool
  | .int n => n.toInt < 0
  | .float x => compareFloats x 0.0 = some .lt ∨ x = -0.0
  | _ => false

/-- The sign bit of a finite float. -/
theorem isNegative_float {x : Float} {negative : Bool} {significand shift : Nat}
    (hx : ofFloat x = .finite negative significand shift) : isNegative (.float x) = negative := by
  have hcompare : compareFloats x 0.0 = some .lt ↔ signed negative (significand * Nat.pow 2 shift) < 0 := by
    have hzero : (ofFloat 0.0).rank? = some 0 := rfl
    rw [compareFloats, hx, hzero, ← compare_lt_iff_lt]
    exact Option.some_inj
  cases negative with
  | false =>
      refine decide_eq_false ?_
      rintro (hlt | rfl)
      · exact absurd (hcompare.mp hlt) (Int.not_lt.mpr (Int.natCast_nonneg _))
      · have hsigned : ofFloat (-0.0) = .finite true 0 0 := rfl
        rw [hsigned] at hx
        cases hx
  | true =>
      refine decide_eq_true ?_
      by_cases hsignificand : significand = 0
      · have hzero : isZeroFloat x = true := by
          rw [isZeroFloat, beq_iff_eq, rank?_eq_zero_iff]
          exact ⟨true, shift, hsignificand ▸ hx⟩
        refine .inr (((isZeroFloat_iff x).mp hzero).resolve_left ?_)
        rintro rfl
        have hunsigned : ofFloat 0.0 = .finite false 0 0 := rfl
        rw [hunsigned] at hx
        cases hx
      · have hpos : 0 < significand * Nat.pow 2 shift :=
          Nat.mul_pos (Nat.pos_of_ne_zero hsignificand) (Nat.pow_pos two_pos)
        exact .inl (hcompare.mpr (Int.neg_neg_of_pos (Int.natCast_pos.mpr hpos)))

/-! ### Numerals -/

/-- A number whose text is a literal for it. -/
structure IsNumeral (number : Value) : Prop where
  isNumber : number.isNumber = true
  printable : (Expr.literal number).Printable
  spelled : Mark.Spelled [number.mark] number.text.toList

theorem isNumeral_int {n : Int64} (h : 0 ≤ n.toInt) : IsNumeral (.int n) := by
  refine ⟨rfl, h, ?_⟩
  have htext : n.toInt.repr.toList = digitsOf n ++ [] := by
    rw [Int.repr_eq_if, if_pos h, Nat.toList_repr, List.append_nil, digitsOf]
  rw [text, htext]
  exact .lexeme .nil

theorem spells_floatText {x : Float} {significand shift : Nat} (hx : ofFloat x = .finite false significand shift) :
    Spells x (floatText x) := by
  refine ⟨?_, readFloat?_floatText hx⟩
  obtain ⟨whole, fraction, hlayout, hwhole, hfraction⟩ := displayed_eq_point (ofFloat_eq_finite hx).1
  rw [toList_floatText hx, hlayout]
  refine Pattern.matches_seq_iff.mpr ⟨whole, '.' :: fraction, rfl, Pattern.matches_digits_iff.mpr hwhole, ?_⟩
  exact Pattern.matches_seq_iff.mpr ⟨['.'], fraction, rfl, .fixed, Pattern.matches_digits_iff.mpr hfraction⟩

theorem isNumeral_float {x : Float} {significand shift : Nat} (hx : ofFloat x = .finite false significand shift) :
    IsNumeral (.float x) := by
  refine ⟨rfl, trivial, ?_⟩
  rw [text, ← List.append_nil (floatText x).toList]
  exact .float (spells_floatText hx) .nil

/-- A numeral is one token. -/
theorem IsNumeral.scans {number : Value} (h : number.IsNumeral) :
    Scans [number.mark] fun tokens => tokens.map Token.kind = [.number] := by
  cases number with
  | int n => exact .lexeme (printable_digitsOf n) trivial fun token hkind _ => .nil (congrArg ([·]) hkind)
  | float x => exact .float trivial fun token hkind _ => .nil (congrArg ([·]) hkind)
  | bool | string | null => exact absurd h.isNumber nofun

/-! ### Texts as expressions -/

/-- The text of the value is the layout of an expression that computes the value, with tokens of these kinds. -/
structure IsWritten (value : Value) (expr : Expr) (kinds : List Kind) : Prop where
  printable : expr.Printable
  levels : expr.levels .comparison < levelLimit
  spelled : Mark.Spelled (expr.marks .comparison) value.text.toList
  scans : Scans (expr.marks .comparison) fun tokens => tokens.map Token.kind = kinds
  eval (environment : Environment) : expr.eval environment = .ok value

theorem IsNumeral.isWritten {number : Value} (h : number.IsNumeral) :
    number.IsWritten (.literal number) [.number] where
  printable := h.printable
  levels := show 1 < levelLimit by decide
  spelled := h.spelled
  scans := h.scans
  eval _ := rfl

theorem IsNumeral.isWritten_negate {number value : Value} (h : number.IsNumeral)
    (htext : value.text.toList = '-' :: number.text.toList) (hnegate : number.negate = .ok value) :
    value.IsWritten (.negate (.literal number)) [.minus, .number] where
  printable := h.printable
  levels := show 2 < levelLimit by decide
  spelled := by
    rw [htext]
    exact .lexeme h.spelled
  scans := .opening (.inr rfl) fun minus hminus =>
    h.scans.mono fun tokens htokens => congrArg₂ List.cons hminus htokens
  eval _ := hnegate

theorem exists_isWritten_int {n : Int64} (hleast : n ≠ Int64.minValue) :
    ∃ expr, IsWritten (.int n) expr (if isNegative (.int n) then [.minus, .number] else [.number]) := by
  by_cases hsign : n.toInt < 0
  · have hfits : FitsWord (-n.toInt) := by
      have hlower := n.minValue_le_toInt
      have hne : n.toInt ≠ Int64.minValue.toInt := fun heq => hleast (Int64.toInt_inj.mp heq)
      rw [Int64.toInt_minValue] at hlower hne
      constructor <;> omega
    obtain ⟨magnitude, -, hmagnitude⟩ := ofExact_of_fitsWord "-" hfits
    have hnonneg : 0 ≤ magnitude.toInt := by omega
    rw [isNegative, if_pos (decide_eq_true hsign)]
    refine ⟨_, (isNumeral_int hnonneg).isWritten_negate ?_ ?_⟩
    · rw [text, text, hmagnitude, Int.repr_eq_if, if_neg (Int.not_le.mpr hsign), Int.repr_eq_if,
        if_pos (hmagnitude ▸ hnonneg), String.toList_append]
      rfl
    · rw [negate, hmagnitude, Int.neg_neg, ofExact, int64?_toInt]
  · rw [isNegative, if_neg (by simpa using hsign)]
    exact ⟨_, (isNumeral_int (Int.not_lt.mp hsign)).isWritten⟩

/-- The float with the other sign bit is the numeral behind the minus sign, for zero as for any other number. -/
theorem exists_isWritten_float {x : Float} {negative : Bool} {significand shift : Nat}
    (hx : ofFloat x = .finite negative significand shift) :
    ∃ expr, IsWritten (.float x) expr (if isNegative (.float x) then [.minus, .number] else [.number]) := by
  rw [isNegative_float hx]
  cases negative with
  | false => exact ⟨_, (isNumeral_float hx).isWritten⟩
  | true =>
      obtain ⟨hcanonical, hpack⟩ := ofFloat_eq_finite hx
      have hmagnitude := ofFloat_pack_of_canonical false hcanonical
      refine ⟨_, (isNumeral_float hmagnitude).isWritten_negate ?_ ?_⟩
      · rw [text, text, toList_floatText hx, toList_floatText hmagnitude]
        rfl
      · rw [negate, neg_pack hcanonical.lt_infinityBits, ← hpack]

/-! ### Printing what was displayed -/

section

variable {value : Value} {expr : Expr} {kinds : List Kind}

theorem IsWritten.ofSource_print (h : value.IsWritten expr kinds) :
    Program.ofSource ("print(" ++ value.text ++ ")") = .ok ⟨[.print expr]⟩ := by
  have hsource : ("print(" ++ value.text ++ ")").toList =
      "print".toList ++ ("(".toList ++ (value.text.toList ++ (")".toList ++ []))) := by
    rw [String.toList_append, String.toList_append, List.append_assoc]
    rfl
  have hspelled : Mark.Spelled (Statement.marks (.print expr)) ("print(" ++ value.text ++ ")").toList := by
    rw [hsource]
    exact .lexeme (.lexeme (h.spelled.append (.lexeme .nil)))
  have hscans : Scans (Statement.marks (.print expr)) fun tokens =>
      DerivesProgram tokens ⟨[.print expr]⟩ (max (expr.levels .comparison + 1) 0) :=
    (scans_print h.printable).mono fun tokens htokens => by
      rw [← List.append_nil tokens]
      exact .cons htokens .nil
  exact hscans.ofSource_eq_ok hspelled (Nat.max_le.mpr ⟨h.levels, Nat.zero_le _⟩)

theorem IsWritten.run_print (h : value.IsWritten expr kinds) (limit : Nat) :
    Program.run limit ⟨[.print expr]⟩ = .done (State.empty.emit value) := by
  rw [Program.run, execBlock_singleton, Statement.exec, Outcome.withValue, h.eval]

end

/-- A point stands in the texts of floats only. -/
theorem point_mem_text_iff {value : Value} (hfinite : value.IsFiniteNumber) :
    '.' ∈ value.text.toList ↔ value.kind = .float := by
  cases value with
  | int n =>
      refine iff_of_false (fun hpoint => ?_) nofun
      rcases Json.mem_repr hpoint with hminus | hdigit
      · exact absurd hminus (by decide)
      · exact absurd hdigit (by decide)
  | float x =>
      obtain ⟨negative, significand, shift, hx⟩ := (isFinite_iff x).mp hfinite
      obtain ⟨whole, fraction, hlayout, -⟩ := displayed_eq_point (ofFloat_eq_finite hx).1
      refine iff_of_true ?_ rfl
      rw [text, toList_floatText hx, hlayout]
      simp
  | bool | string | null => exact hfinite.elim

end Value

/-- The text of a finite number, put into `print(...)`, is a program that prints the number again, whatever its kind,
its sign and its size. It is one numeral, behind one minus sign if the number is negative, and has a point if and only
if the number is a float. -/
theorem text_reads_back (value : Value) (hfinite : value.IsFiniteNumber) (hleast : value ≠ .int Int64.minValue) :
    (∃ program, Program.ofSource ("print(" ++ value.text ++ ")") = .ok program ∧
      ∀ limit, ∃ after, program.run limit = .done after ∧ after.output = #[value]) ∧
    (∃ tokens, scan value.text = .ok tokens ∧
      tokens.map Token.kind = if value.isNegative then [.minus, .number] else [.number]) ∧
    ('.' ∈ value.text.toList ↔ value.kind = .float) := by
  have hwritten : ∃ expr, value.IsWritten expr (if value.isNegative then [.minus, .number] else [.number]) := by
    cases value with
    | int n => exact Value.exists_isWritten_int fun heq => hleast (congrArg Value.int heq)
    | float x =>
        obtain ⟨negative, significand, shift, hx⟩ := (isFinite_iff x).mp hfinite
        exact Value.exists_isWritten_float hx
    | bool | string | null => exact hfinite.elim
  obtain ⟨expr, hexpr⟩ := hwritten
  obtain ⟨tokens, htokens, -, hscan⟩ := hexpr.scans.scan_eq_ok hexpr.spelled
  refine ⟨⟨_, hexpr.ofSource_print, fun limit => ⟨_, hexpr.run_print limit, rfl⟩⟩, ?_, ?_⟩
  · exact ⟨tokens, hscan, htokens⟩
  · exact Value.point_mem_text_iff hfinite

/-- The zero with a sign is not the other zero, and keeps its sign. -/
theorem text_reads_back_signed_zero :
    (Value.float (-0.0)).IsFiniteNumber ∧ Value.float (-0.0) ≠ .float 0.0 ∧
    (∃ program, Program.ofSource "print(-0.0)" = .ok program ∧
      ∀ limit, ∃ after, program.run limit = .done after ∧ after.output = #[.float (-0.0)]) ∧
    ∃ tokens, scan "-0.0" = .ok tokens ∧ tokens.map Token.kind = [.minus, .number] := by
  have htext : (Value.float (-0.0)).text = "-0.0" := by decide +kernel
  have hfinite : (Value.float (-0.0)).IsFiniteNumber := rfl
  have hsign : (Value.float (-0.0)).isNegative = true := by decide +kernel
  obtain ⟨hread, hscan, -⟩ := text_reads_back (.float (-0.0)) hfinite nofun
  rw [htext] at hread hscan
  rw [hsign, if_pos rfl] at hscan
  exact ⟨hfinite, by decide +kernel, hread, hscan⟩

end ScriptLang
