import ScriptLang.Proofs.Grammar.Writing
import ScriptLang.Proofs.Program.Concatenation
import ScriptLang.Proofs.Program.Printing
/-!
# Programs from a source are well formed

Only the scanner looks at the characters of names and numbers; the grammar takes them as they come. So what is known
of the tokens of a source is carried over to the leaves of the program: names are words that are no keywords, and
whole numbers, counts of loops among them, have exactly the value that their digits denote.
-/

namespace ScriptLang

/-! ### Names -/

theorem Token.of_leaf?_eq_name {token : Token} {name : String} (h : token.leaf? = some (.name name)) :
    token.kind = .identifier ∧ token.text = name := by
  rw [leaf?] at h
  split at h
  case h_1 hkind =>
    cases h
    exact ⟨hkind, rfl⟩
  case h_2 =>
    obtain ⟨_, _, hvalue⟩ := Option.map_eq_some_iff.mp h
    cases hvalue
  all_goals cases h

theorem isName_of_identifier {source : String} {token : Token} (hmem : token ∈ tokensOf source)
    (hkind : token.kind = .identifier) : IsName token.text := by
  obtain ⟨_, hmunch⟩ := (Piece.scanned_cut Position.start source.toList).exists_munch token hmem
  rw [hkind] at hmunch
  constructor
  case word =>
    have hadmits := hmunch.admitted
    generalize token.text.toList = text at hadmits
    cases hadmits with
    | fixed hrule =>
        have hall : ∀ rule ∈ Kind.fixedRules, rule.1 ≠ .identifier := by decide
        exact absurd rfl (hall _ hrule)
    | identifier hmatches => exact hmatches
  case noKeyword =>
    intro hkeyword
    obtain ⟨⟨kind, word⟩, hrule, rfl⟩ := List.mem_map.mp hkeyword
    have hall : ∀ rule ∈ Kind.keywords, rule.1 ≠ .identifier := by decide
    exact hall _ hrule (hmunch.fixedFirst kind _ (List.mem_append_right _ hrule) rfl)

/-! ### Whole numbers -/

/-- What decimal digits denote, each by its place. -/
def placeValue : List Char → Nat
  | [] => 0
  | digit :: rest => (digit.toNat - '0'.toNat) * 10 ^ rest.length + placeValue rest

theorem ofDigitChars_eq_placeValue (digits : List Char) : Nat.ofDigitChars 10 digits 0 = placeValue digits := by
  induction digits with
  | nil => rfl
  | cons digit rest ih =>
      rw [Nat.ofDigitChars_cons, Nat.ofDigitChars_eq_ofDigitChars_zero, ih, placeValue]
      ring

/-- The token is a numeral without a point. -/
def Token.isWhole (token : Token) : Bool :=
  token.kind = .number && !token.text.toList.contains '.'

theorem Token.isWhole_iff {token : Token} :
    token.isWhole = true ↔ token.kind = .number ∧ '.' ∉ token.text.toList := by
  simp [isWhole]

theorem matches_number {source : String} {token : Token} (hmem : token ∈ tokensOf source)
    (hkind : token.kind = .number) : Pattern.number.Matches token.text.toList := by
  obtain ⟨_, hmunch⟩ := (Piece.scanned_cut Position.start source.toList).exists_munch token hmem
  have hadmits := hmunch.admitted
  rw [hkind] at hadmits
  generalize token.text.toList = text at hadmits
  cases hadmits with
  | fixed hrule =>
      have hall : ∀ rule ∈ Kind.fixedRules, rule.1 ≠ .number := by decide
      exact absurd rfl (hall _ hrule)
  | number hmatches => exact hmatches

theorem digits_of_isWhole {source : String} {token : Token} (hmem : token ∈ tokensOf source)
    (hwhole : token.isWhole = true) :
    token.text.toList ≠ [] ∧ ∀ char ∈ token.text.toList, char.isDigit = true := by
  obtain ⟨hkind, hpoint⟩ := Token.isWhole_iff.mp hwhole
  obtain ⟨whole, hwhole, htext | ⟨fraction, _, htext⟩⟩ := Pattern.matches_number_iff.mp (matches_number hmem hkind)
  · rw [htext]
    exact hwhole
  · rw [htext] at hpoint
    exact absurd (List.mem_append_right _ List.mem_cons_self) hpoint

theorem int64?_natCast (value : Nat) :
    int64? value = if value ≤ 2 ^ 63 - 1 then some (Int64.ofInt value) else none := by
  have hmin : Int64.minValue.toInt = -2 ^ 63 := rfl
  have hmax : Int64.maxValue.toInt = 2 ^ 63 - 1 := rfl
  rw [int64?, hmin, hmax]
  split <;> split <;> first | rfl | omega

/-- A numeral without a point is the number that its digits denote, or nothing if that is too large. -/
theorem numberOf?_of_isWhole {source : String} {token : Token} (hmem : token ∈ tokensOf source)
    (hwhole : token.isWhole = true) :
    Grammar.numberOf? token.text =
      if placeValue token.text.toList ≤ 2 ^ 63 - 1 then
        some (.int (Int64.ofInt (placeValue token.text.toList)))
      else none := by
  obtain ⟨hne, hdigits⟩ := digits_of_isWhole hmem hwhole
  have hpoint : token.text.toList.contains '.' = false := by
    simpa using (Token.isWhole_iff.mp hwhole).2
  rw [Grammar.numberOf?, hpoint, readInt?_digits hne hdigits, ofDigitChars_eq_placeValue]
  simp only [Bool.false_eq_true, if_false, Option.bind_some, int64?_natCast]
  split <;> rfl

theorem toInt_ofInt_placeValue {value : Nat} (h : value ≤ 2 ^ 63 - 1) : (Int64.ofInt value).toInt = value := by
  apply Int64.toInt_ofInt_of_le
  · omega
  · omega

/-! ### Leaves -/

def Leaf.int? : Leaf → Option Int64
  | .value (.int number) => some number
  | _ => none

/-- Only a numeral without a point stands for a whole number. -/
theorem int?_eq_none {token : Token} {leaf : Leaf} (h : token.leaf? = some leaf) (hwhole : ¬token.isWhole = true) :
    leaf.int? = none := by
  rw [Token.leaf?] at h
  split at h
  case h_2 hkind =>
    have hpoint : token.text.toList.contains '.' = true := by
      simpa [Token.isWhole_iff, hkind] using hwhole
    rw [Grammar.numberOf?, if_pos hpoint, Option.map_map, Option.map_eq_some_iff] at h
    obtain ⟨x, _, rfl⟩ := h
    rfl
  all_goals
    cases h
    try rfl

/-- The whole numbers among the leaves are those that the numerals without a point denote, in the same order. -/
theorem Writes.map_int? {source : String} {tokens : List Token} {leaves : List Leaf} (h : Writes tokens leaves)
    (hsource : ∀ token ∈ tokens, token ∈ tokensOf source) :
    (leaves.filterMap Leaf.int?).map Int64.toInt =
      (tokens.filter Token.isWhole).map fun token => (placeValue token.text.toList : Int) := by
  induction h with
  | nil => rfl
  | @skip token tokens leaves hkind _ ih =>
      have hother : ¬token.isWhole = true := by
        intro hwhole
        rw [(Token.isWhole_iff.mp hwhole).1] at hkind
        cases hkind
      rw [List.forall_mem_cons] at hsource
      rw [List.filter_cons_of_neg hother]
      exact ih hsource.2
  | @leaf token tokens leaf leaves hkind hleaf _ ih =>
      rw [List.forall_mem_cons] at hsource
      by_cases hwhole : token.isWhole = true
      · rw [Token.leaf?, (Token.isWhole_iff.mp hwhole).1] at hleaf
        simp only [numberOf?_of_isWhole hsource.1 hwhole] at hleaf
        split at hleaf
        · rename_i hvalue
          cases hleaf
          have hint : Leaf.int? (.value (.int (Int64.ofInt (placeValue token.text.toList)))) =
              some (Int64.ofInt (placeValue token.text.toList)) := rfl
          rw [List.filterMap_cons_some hint, List.filter_cons_of_pos hwhole, List.map_cons, List.map_cons,
            toInt_ofInt_placeValue hvalue, ih hsource.2]
        · cases hleaf
      · rw [List.filterMap_cons_none (int?_eq_none hleaf hwhole), List.filter_cons_of_neg hwhole, ih hsource.2]

/-- Names of a program that a source was read as are words and no keywords. Its whole numbers and counts of loops are
not negative, and one by one what the numerals of the source without a point denote. Such a numeral, however long,
is read as what it denotes if 64 bits hold that, and is refused as too large otherwise. -/
theorem ofSource_wellFormed (source : String) :
    (∀ program, Program.ofSource source = .ok program →
      (∀ name, .name name ∈ program.leaves →
        Pattern.identifier.Matches name.toList ∧ name ∉ Kind.keywords.map Prod.snd) ∧
      (∀ number, .value (.int number) ∈ program.leaves → 0 ≤ number.toInt ∧ number.toInt ≤ 2 ^ 63 - 1) ∧
      (program.leaves.filterMap Leaf.int?).map Int64.toInt =
        ((tokensOf source).filter Token.isWhole).map fun token => (placeValue token.text.toList : Int)) ∧
    ∀ token ∈ tokensOf source, token.kind = .number → '.' ∉ token.text.toList → ∀ cursor,
      (placeValue token.text.toList ≤ 2 ^ 63 - 1 → ∃ number : Int64,
        number.toInt = placeValue token.text.toList ∧ Grammar.number token cursor = .ok (.int number) cursor) ∧
      (2 ^ 63 - 1 < placeValue token.text.toList →
        Grammar.number token cursor = .error (.literalTooLarge token) cursor) := by
  refine ⟨?_, ?_⟩
  · intro program hprogram
    have hwrites := writes_of_ofTokens (Program.ofSource_eq_ok_iff.mp hprogram).2
    have hints := hwrites.map_int? fun _ => id
    refine ⟨?_, ?_, hints⟩
    · intro name hname
      obtain ⟨token, htoken, hleaf⟩ := hwrites.exists_token _ hname
      obtain ⟨hkind, rfl⟩ := Token.of_leaf?_eq_name hleaf
      have hisName := isName_of_identifier htoken hkind
      exact ⟨hisName.word, hisName.noKeyword⟩
    · intro number hnumber
      have hmem : number.toInt ∈ (program.leaves.filterMap Leaf.int?).map Int64.toInt :=
        List.mem_map_of_mem (List.mem_filterMap.mpr ⟨_, hnumber, rfl⟩)
      rw [hints] at hmem
      obtain ⟨token, _, hvalue⟩ := List.mem_map.mp hmem
      have hmax : Int64.maxValue.toInt = 2 ^ 63 - 1 := rfl
      exact ⟨by omega, hmax ▸ number.toInt_le⟩
  · intro token htoken hkind hpoint cursor
    have hwhole : token.isWhole = true := Token.isWhole_iff.mpr ⟨hkind, hpoint⟩
    have hnumber := numberOf?_of_isWhole htoken hwhole
    constructor
    · intro hvalue
      rw [if_pos hvalue] at hnumber
      refine ⟨_, toInt_ofInt_placeValue hvalue, ?_⟩
      rw [Grammar.number, hnumber]
      rfl
    · intro hvalue
      rw [if_neg (Nat.not_le_of_lt hvalue)] at hnumber
      rw [Grammar.number, hnumber]
      rfl

/-- A count with leading zeros, and a numeral that is one too large behind more of them. -/
theorem ofSource_wellFormed_leading_zeros :
    (∃ program, Program.ofSource "for i in range(0012) \x7bprint(i * 3)\x7d" = .ok program ∧
      (program.leaves.filterMap Leaf.int?).map Int64.toInt = [12, 3]) ∧
    Grammar.number ⟨.number, "009223372036854775808", Position.start⟩ (Grammar.Cursor.start []) =
      .error (.literalTooLarge ⟨.number, "009223372036854775808", Position.start⟩) (Grammar.Cursor.start []) := by
  have heval :
      Program.ofSource "for i in range(0012) \x7bprint(i * 3)\x7d" =
        .ok ⟨[.forRange "i" 12 [.print (.binary .multiply (.var "i") (.literal (.int 3)))]]⟩ ∧
      (((tokensOf "for i in range(0012) \x7bprint(i * 3)\x7d").filter Token.isWhole).map
        fun token => (placeValue token.text.toList : Int)) = [12, 3] ∧
      tokensOf "009223372036854775808" = [⟨.number, "009223372036854775808", Position.start⟩] := by
    cbv
    exact ⟨rfl, rfl, trivial⟩
  constructor
  · have hints := ((ofSource_wellFormed _).1 _ heval.1).2.2
    exact ⟨_, heval.1, hints.trans heval.2.1⟩
  · have hmem : ⟨.number, "009223372036854775808", Position.start⟩ ∈ tokensOf "009223372036854775808" := by
      rw [heval.2.2]
      exact List.mem_cons_self
    exact ((ofSource_wellFormed _).2 _ hmem rfl (by decide) _).2 (by decide)

end ScriptLang
