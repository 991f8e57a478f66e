import Mathlib
import ScriptLang.Text.Escape
/-!
# What a string literal stands for

A quoted text is a row of units: single characters, and backslashes with what they take along. `Takes` says what each
unit is and how far it reaches, without regard to how decoding finds it, and `Denotes` says what it stands for. Every
text is split into units in exactly one way. Decoding gives what the units stand for, one behind the other. A code of
hexadecimal digits may stand for nothing, because digits are missing or because no character has it, and then the whole
text is left as it is written.
-/

namespace ScriptLang

namespace Escape

/-! ### Digits -/

/-- The digits of base sixteen with their values. -/
def digitValues : List (Char × Nat) :=
  [('0', 0), ('1', 1), ('2', 2), ('3', 3), ('4', 4), ('5', 5), ('6', 6), ('7', 7), ('8', 8), ('9', 9),
    ('a', 10), ('b', 11), ('c', 12), ('d', 13), ('e', 14), ('f', 15),
    ('A', 10), ('B', 11), ('C', 12), ('D', 13), ('E', 14), ('F', 15)]

def IsDigit (base : Nat) (char : Char) : Prop :=
  ∃ value, (char, value) ∈ digitValues ∧ value < base

/-- The digits stand for the number, each at its place. -/
inductive Counts (base : Nat) : List Char → Nat → Prop
  | nil : Counts base [] 0
  | cons {digit : Char} {value number : Nat} {rest : List Char} (hdigit : (digit, value) ∈ digitValues)
      (hrest : Counts base rest number) : Counts base (digit :: rest) (value * base ^ rest.length + number)

/-- Digits as far as they go, but no more of them than the limit. -/
structure Run (base limit : Nat) (digits rest : List Char) : Prop where
  length_le : digits.length ≤ limit
  isDigit : ∀ char ∈ digits, IsDigit base char
  greedy : digits.length < limit → ∀ char ∈ rest.head?, ¬IsDigit base char

/-! ### Units -/

/-- A unit of a text, as it is written. -/
inductive Written where
  | plain (char : Char)
  | letter (char : Char)
  | octal (digits : List Char)
  | hex (char : Char) (digits : List Char)
  | lineBreak
  | loneBackslash
  | unknown (char : Char)

/-- The escapes of one character, with what they stand for. -/
def letters : List (Char × Char) :=
  [('\\', '\\'), ('"', '"'), ('\'', '\''), ('n', '\n'), ('t', '\t'), ('r', '\r'), ('a', '\x07'), ('b', '\x08'),
    ('f', '\x0c'), ('v', '\x0b')]

/-- The escapes that take a code along, with the number of its digits. -/
def codeLetters : List (Char × Nat) :=
  [('x', 2), ('u', 4), ('U', 8)]

/-- The text starts with the unit, and the rest follows it. -/
inductive Takes : Written → List Char → List Char → Prop
  | plain {char : Char} {rest : List Char} (hchar : char ≠ '\\') : Takes (.plain char) (char :: rest) rest
  | letter {char value : Char} {rest : List Char} (hletter : (char, value) ∈ letters) :
      Takes (.letter char) ('\\' :: char :: rest) rest
  | octal {digit : Char} {more rest : List Char} (hdigit : IsDigit 8 digit) (hmore : Run 8 2 more rest) :
      Takes (.octal (digit :: more)) ('\\' :: digit :: (more ++ rest)) rest
  | hex {char : Char} {count : Nat} {digits rest : List Char} (hletter : (char, count) ∈ codeLetters)
      (hdigits : Run 16 count digits rest) : Takes (.hex char digits) ('\\' :: char :: (digits ++ rest)) rest
  | lineBreak {rest : List Char} : Takes .lineBreak ('\\' :: '\n' :: rest) rest
  | loneBackslash : Takes .loneBackslash ['\\'] []
  | unknown {char : Char} {rest : List Char} (hletter : ∀ value, (char, value) ∉ letters)
      (hdigit : ¬IsDigit 8 char) (hcode : ∀ count, (char, count) ∉ codeLetters) (hbreak : char ≠ '\n') :
      Takes (.unknown char) ('\\' :: char :: rest) rest

/-- The text is made of these units, from left to right. -/
inductive Split : List Char → List Written → Prop
  | nil : Split [] []
  | cons {unit : Written} {units : List Written} {text rest : List Char} (hunit : Takes unit text rest)
      (hrest : Split rest units) : Split text (unit :: units)

/-- What a unit stands for. A code stands for a character only if it has all its digits. -/
inductive Denotes : Written → List Char → Prop
  | plain {char : Char} : Denotes (.plain char) [char]
  | letter {char value : Char} (hletter : (char, value) ∈ letters) : Denotes (.letter char) [value]
  | octal {digits : List Char} {char : Char} (hcode : Counts 8 digits char.toNat) : Denotes (.octal digits) [char]
  | hex {letter char : Char} {digits : List Char} (hletter : (letter, digits.length) ∈ codeLetters)
      (hcode : Counts 16 digits char.toNat) : Denotes (.hex letter digits) [char]
  | lineBreak : Denotes .lineBreak []
  | loneBackslash : Denotes .loneBackslash ['\\']
  | unknown {char : Char} : Denotes (.unknown char) ['\\', char]

/-- A code has all its digits, and there is a character with it. -/
def Written.IsSound : Written → Prop
  | .hex char digits => (char, digits.length) ∈ codeLetters ∧ ∃ value : Char, Counts 16 digits value.toNat
  | _ => True

/-- The text between the quotes, or the text itself unless it is something between quotes. -/
def Unquoted (literal inner : List Char) : Prop :=
  literal = '"' :: (inner ++ ['"']) ∨ (∀ text, literal ≠ '"' :: (text ++ ['"'])) ∧ inner = literal

/-! ### Reading digits -/

theorem exists_ofNat_of_between {char low high : Char} (h : low ≤ char ∧ char ≤ high) :
    ∃ n, char = Char.ofNat n ∧ low.toNat ≤ n ∧ n ≤ high.toNat :=
  ⟨char.toNat, (Char.ofNat_toNat char).symm, h.1, h.2⟩

theorem hexDigit?_eq_some_iff {char : Char} {value : Nat} :
    hexDigit? char = some value ↔ (char, value) ∈ digitValues := by
  constructor
  · intro h
    unfold hexDigit? at h
    split_ifs at h with hdigit hlower hupper
    · obtain ⟨n, rfl, hlow, hhigh⟩ := exists_ofNat_of_between hdigit
      cases h
      change 48 ≤ n at hlow
      change n ≤ 57 at hhigh
      interval_cases n <;> decide
    · obtain ⟨n, rfl, hlow, hhigh⟩ := exists_ofNat_of_between hlower
      cases h
      change 97 ≤ n at hlow
      change n ≤ 102 at hhigh
      interval_cases n <;> decide
    · obtain ⟨n, rfl, hlow, hhigh⟩ := exists_ofNat_of_between hupper
      cases h
      change 65 ≤ n at hlow
      change n ≤ 70 at hhigh
      interval_cases n <;> decide
  · have hall : ∀ pair ∈ digitValues, hexDigit? pair.1 = some pair.2 := by decide
    exact hall (char, value)

theorem isOctalDigit_iff {char : Char} : isOctalDigit char = true ↔ IsDigit 8 char := by
  constructor
  · intro h
    rw [isOctalDigit, Bool.and_eq_true, decide_eq_true_eq, decide_eq_true_eq] at h
    obtain ⟨n, rfl, hlow, hhigh⟩ := exists_ofNat_of_between h
    change 48 ≤ n at hlow
    change n ≤ 55 at hhigh
    refine ⟨n - 48, ?_, by omega⟩
    interval_cases n <;> decide
  · rintro ⟨value, hdigit, hvalue⟩
    have hall : ∀ pair ∈ digitValues, pair.2 < 8 → isOctalDigit pair.1 = true := by decide
    exact hall _ hdigit hvalue

theorem isDigit_of_mem {char : Char} {value : Nat} (h : (char, value) ∈ digitValues) : IsDigit 16 char := by
  have hall : ∀ pair ∈ digitValues, pair.2 < 16 := by decide
  exact ⟨value, h, hall _ h⟩

theorem foldlM_eq_some_iff {base start number : Nat} {digits : List Char} :
    digits.foldlM (fun code char => (hexDigit? char).map (base * code + ·)) start = some number ↔
      ∃ value, Counts base digits value ∧ number = start * base ^ digits.length + value := by
  induction digits generalizing start with
  | nil =>
      constructor
      · rintro ⟨⟩
        exact ⟨0, .nil, by simp⟩
      · rintro ⟨value, ⟨⟩, rfl⟩
        simp
  | cons digit rest ih =>
      rw [List.foldlM_cons]
      cases hdigit : hexDigit? digit with
      | none =>
          refine iff_of_false nofun ?_
          rintro ⟨_, hcounts, _⟩
          cases hcounts with
          | cons hmem => exact absurd (hexDigit?_eq_some_iff.mpr hmem) (by simp [hdigit])
      | some first =>
          show rest.foldlM _ (base * start + first) = some number ↔ _
          rw [ih]
          constructor
          · rintro ⟨value, hcounts, rfl⟩
            refine ⟨_, .cons (hexDigit?_eq_some_iff.mp hdigit) hcounts, ?_⟩
            rw [List.length_cons, pow_succ]
            ring
          · rintro ⟨_, hcounts, rfl⟩
            cases hcounts with
            | cons hmem hcounts =>
                obtain rfl := Option.some.inj (hdigit.symm.trans (hexDigit?_eq_some_iff.mpr hmem))
                refine ⟨_, hcounts, ?_⟩
                rw [List.length_cons, pow_succ]
                ring

theorem code?_eq_some_iff {base number : Nat} {digits : List Char} :
    code? base digits = some number ↔ Counts base digits number := by
  rw [code?, foldlM_eq_some_iff]
  simp

theorem Counts.unique {base number number' : Nat} {digits : List Char} (h : Counts base digits number)
    (h' : Counts base digits number') : number = number' := by
  rw [← code?_eq_some_iff] at h h'
  exact Option.some.inj (h.symm.trans h')

theorem Counts.lt {base number : Nat} {digits : List Char} (h : Counts base digits number) (hbase : base ≤ 16) :
    number < 16 ^ digits.length := by
  induction h with
  | nil => exact Nat.one_pos
  | @cons digit value number rest hdigit _ ih =>
      have hall : ∀ pair ∈ digitValues, pair.2 ≤ 15 := by decide
      have hvalue := hall _ hdigit
      have hpower : base ^ rest.length ≤ 16 ^ rest.length := Nat.pow_le_pow_left hbase _
      have hplace := Nat.mul_le_mul hvalue hpower
      rw [List.length_cons, Nat.pow_succ]
      dsimp only at hplace
      omega

theorem Counts.isDigit {base number : Nat} {digits : List Char} (h : Counts base digits number) :
    ∀ char ∈ digits, IsDigit 16 char := by
  induction h with
  | nil => nofun
  | cons hdigit _ ih => exact List.forall_mem_cons.mpr ⟨isDigit_of_mem hdigit, ih⟩

theorem exists_counts {base : Nat} {digits : List Char} (h : ∀ char ∈ digits, IsDigit base char) :
    ∃ number, Counts base digits number := by
  induction digits with
  | nil => exact ⟨0, .nil⟩
  | cons digit rest ih =>
      rw [List.forall_mem_cons] at h
      obtain ⟨⟨value, hdigit, _⟩, hrest⟩ := h
      obtain ⟨number, hcounts⟩ := ih hrest
      exact ⟨_, .cons hdigit hcounts⟩

/-! ### Every text is split in one way -/

theorem exists_run (base limit : Nat) (text : List Char) :
    ∃ digits rest, text = digits ++ rest ∧ Run base limit digits rest := by
  induction limit generalizing text with
  | zero => exact ⟨[], text, rfl, le_rfl, nofun, nofun⟩
  | succ limit ih =>
      cases text with
      | nil => exact ⟨[], [], rfl, Nat.zero_le _, nofun, nofun⟩
      | cons char text =>
          by_cases hdigit : IsDigit base char
          · obtain ⟨digits, rest, rfl, hrun⟩ := ih text
            refine ⟨char :: digits, rest, rfl, Nat.succ_le_succ hrun.length_le, ?_, fun hlt => ?_⟩
            · exact List.forall_mem_cons.mpr ⟨hdigit, hrun.isDigit⟩
            · exact hrun.greedy (Nat.lt_of_succ_lt_succ hlt)
          · refine ⟨[], char :: text, rfl, Nat.zero_le _, nofun, fun _ => ?_⟩
            rintro _ ⟨⟩
            exact hdigit

/-- A run that is shorter than another one would have to stop before a digit. -/
theorem Run.eq_nil_of_append {base limit : Nat} {digits more rest : List Char}
    (h : Run base limit digits (more ++ rest)) (h' : Run base limit (digits ++ more) rest) : more = [] := by
  cases more with
  | nil => rfl
  | cons char more =>
      have hlt : digits.length < limit := by
        have hlength := h'.length_le
        rw [List.length_append, List.length_cons] at hlength
        omega
      exact absurd (h'.isDigit char (by simp)) (h.greedy hlt char rfl)

theorem Run.unique {base limit : Nat} {digits digits' rest rest' : List Char} (h : Run base limit digits rest)
    (h' : Run base limit digits' rest') (heq : digits ++ rest = digits' ++ rest') :
    digits = digits' ∧ rest = rest' := by
  rcases List.append_eq_append_iff.mp heq with ⟨more, rfl, rfl⟩ | ⟨more, rfl, rfl⟩
  · obtain rfl := h.eq_nil_of_append h'
    simp
  · obtain rfl := h'.eq_nil_of_append h
    simp

theorem hexCount?_eq_some_iff {char : Char} {count : Nat} :
    hexCount? char = some count ↔ (char, count) ∈ codeLetters := by
  unfold hexCount?
  split <;> simp_all [codeLetters, eq_comm]

theorem codeLetters_unique {char : Char} {count count' : Nat} (h : (char, count) ∈ codeLetters)
    (h' : (char, count') ∈ codeLetters) : count = count' := by
  rw [← hexCount?_eq_some_iff] at h h'
  exact Option.some.inj (h.symm.trans h')

/-- The character behind a backslash tells the kind of the unit. -/
theorem not_isDigit_of_letter {char value : Char} (h : (char, value) ∈ letters) :
    ¬IsDigit 8 char ∧ (∀ count, (char, count) ∉ codeLetters) ∧ char ≠ '\n' := by
  have hall : ∀ pair ∈ letters, isOctalDigit pair.1 = false ∧ hexCount? pair.1 = none ∧ pair.1 ≠ '\n' := by decide
  obtain ⟨hoctal, hcount, hbreak⟩ := hall _ h
  refine ⟨?_, ?_, hbreak⟩
  · simp [← isOctalDigit_iff, hoctal]
  · simp [← hexCount?_eq_some_iff, hcount]

theorem not_isDigit_of_codeLetter {char : Char} {count : Nat} (h : (char, count) ∈ codeLetters) :
    ¬IsDigit 8 char ∧ char ≠ '\n' := by
  have hall : ∀ pair ∈ codeLetters, isOctalDigit pair.1 = false ∧ pair.1 ≠ '\n' := by decide
  obtain ⟨hoctal, hbreak⟩ := hall _ h
  exact ⟨by simp [← isOctalDigit_iff, hoctal], hbreak⟩

theorem not_isDigit_lineBreak : ¬IsDigit 8 '\n' := by
  rw [← isOctalDigit_iff]
  decide

theorem Takes.unique {unit unit' : Written} {text rest rest' : List Char} (h : Takes unit text rest)
    (h' : Takes unit' text rest') : unit = unit' ∧ rest = rest' := by
  generalize htext : text = text' at h'
  cases h with
  | octal hdigit hmore =>
      cases h' with
      | octal hdigit' hmore' =>
          obtain ⟨rfl, hdigits⟩ : _ ∧ _ := by simpa using htext
          obtain ⟨rfl, rfl⟩ := hmore.unique hmore' hdigits
          exact ⟨rfl, rfl⟩
      | _ => grind [→ not_isDigit_of_letter, → not_isDigit_of_codeLetter, not_isDigit_lineBreak]
  | hex hletter hdigits =>
      cases h' with
      | hex hletter' hdigits' =>
          obtain ⟨rfl, heq⟩ : _ ∧ _ := by simpa using htext
          obtain rfl := codeLetters_unique hletter hletter'
          obtain ⟨rfl, rfl⟩ := hdigits.unique hdigits' heq
          exact ⟨rfl, rfl⟩
      | _ => grind [→ not_isDigit_of_letter, → not_isDigit_of_codeLetter]
  | _ => cases h' <;> grind [→ not_isDigit_of_letter, → not_isDigit_of_codeLetter, not_isDigit_lineBreak]

theorem exists_takes {text : List Char} (h : text ≠ []) : ∃ unit rest, Takes unit text rest := by
  obtain ⟨char, text, rfl⟩ := List.exists_cons_of_ne_nil h
  by_cases hbackslash : char = '\\'
  case neg => exact ⟨_, _, .plain hbackslash⟩
  subst hbackslash
  cases text with
  | nil => exact ⟨_, _, .loneBackslash⟩
  | cons char text =>
      by_cases hletter : ∃ value, (char, value) ∈ letters
      · obtain ⟨value, hletter⟩ := hletter
        exact ⟨_, _, .letter hletter⟩
      by_cases hdigit : IsDigit 8 char
      · obtain ⟨more, rest, rfl, hmore⟩ := exists_run 8 2 text
        exact ⟨_, _, .octal hdigit hmore⟩
      by_cases hcode : ∃ count, (char, count) ∈ codeLetters
      · obtain ⟨count, hcode⟩ := hcode
        obtain ⟨digits, rest, rfl, hdigits⟩ := exists_run 16 count text
        exact ⟨_, _, .hex hcode hdigits⟩
      by_cases hbreak : char = '\n'
      · subst hbreak
        exact ⟨_, _, .lineBreak⟩
      · exact ⟨_, _, .unknown (not_exists.mp hletter) hdigit (not_exists.mp hcode) hbreak⟩

theorem Takes.length_lt {unit : Written} {text rest : List Char} (h : Takes unit text rest) :
    rest.length < text.length := by
  cases h <;> simp <;> omega

theorem exists_split (text : List Char) : ∃ units, Split text units := by
  induction hlength : text.length using Nat.strong_induction_on generalizing text with
  | _ length ih =>
      by_cases hempty : text = []
      · subst hempty
        exact ⟨[], .nil⟩
      · obtain ⟨unit, rest, hunit⟩ := exists_takes hempty
        obtain ⟨units, hunits⟩ := ih rest.length (hlength ▸ hunit.length_lt) rest rfl
        exact ⟨unit :: units, .cons hunit hunits⟩

theorem Split.unique {text : List Char} {units units' : List Written} (h : Split text units) (h' : Split text units') :
    units = units' := by
  induction h generalizing units' with
  | nil =>
      cases h' with
      | nil => rfl
      | cons hunit => cases hunit
  | cons hunit _ ih =>
      cases h' with
      | nil => cases hunit
      | cons hunit' hrest' =>
          obtain ⟨rfl, rfl⟩ := hunit.unique hunit'
          rw [ih hrest']

/-! ### Decoding goes by units -/

theorem charOfCode?_eq_some_iff {code : Nat} {char : Char} : charOfCode? code = some char ↔ char.toNat = code := by
  unfold charOfCode?
  split_ifs with hvalid
  · rw [Option.some_inj]
    constructor
    · rintro rfl
      rw [Char.toNat_ofNat, if_pos hvalid]
    · rintro rfl
      exact Char.ofNat_toNat char
  · refine iff_of_false nofun ?_
    rintro rfl
    exact hvalid char.valid

/-- The value of a code, if it has one. -/
theorem code_value?_iff {base : Nat} {digits value : List Char} :
    (do return [← charOfCode? (← code? base digits)]) = some value ↔
      ∃ char, value = [char] ∧ Counts base digits char.toNat := by
  simp only [Option.bind_eq_bind, Option.bind_eq_some_iff, Option.pure_def, Option.some_inj, code?_eq_some_iff,
    charOfCode?_eq_some_iff]
  constructor
  · rintro ⟨code, hcode, char, rfl, rfl⟩
    exact ⟨char, rfl, hcode⟩
  · rintro ⟨char, rfl, hcode⟩
    exact ⟨_, hcode, char, rfl, rfl⟩

theorem Run.takeWhile_take {limit : Nat} {digits rest : List Char} (h : Run 8 limit digits rest) :
    ((digits ++ rest).take limit).takeWhile isOctalDigit = digits := by
  have hstop : (rest.take (limit - digits.length)).takeWhile isOctalDigit = [] := by
    by_cases hlt : digits.length < limit
    · cases rest with
      | nil => simp
      | cons char rest =>
          have hchar : ¬isOctalDigit char = true := by
            rw [isOctalDigit_iff]
            exact h.greedy hlt char rfl
          obtain ⟨more, hmore⟩ : ∃ more, limit - digits.length = more + 1 := ⟨limit - digits.length - 1, by omega⟩
          rw [hmore, List.take_succ_cons, List.takeWhile_cons_of_neg hchar]
    · rw [Nat.sub_eq_zero_of_le (not_lt.mp hlt), List.take_zero, List.takeWhile_nil]
  rw [List.take_append, List.take_of_length_le h.length_le,
    List.takeWhile_append_of_pos fun char hchar => isOctalDigit_iff.mpr (h.isDigit char hchar), hstop, List.append_nil]

/-- Where digits are missing, the text ends too soon or another character stands in their place. -/
theorem Run.value?_eq_none {count : Nat} {digits rest : List Char} (h : Run 16 count digits rest)
    (hlt : digits.length < count) : (Segment.hex count ((digits ++ rest).take count)).value? = none := by
  rw [Segment.value?]
  split_ifs with hlength
  · rw [Option.eq_none_iff_forall_ne_some]
    intro value hvalue
    obtain ⟨_, _, hcounts⟩ := code_value?_iff.mp hvalue
    cases rest with
    | nil =>
        rw [List.append_nil, List.length_take] at hlength
        omega
    | cons char rest =>
        obtain ⟨more, rfl⟩ : ∃ more, count = digits.length + (more + 1) := ⟨count - digits.length - 1, by omega⟩
        have hmem : char ∈ (digits ++ char :: rest).take (digits.length + (more + 1)) := by
          rw [List.take_length_add_append, List.take_succ_cons]
          simp
        exact h.greedy hlt char rfl (hcounts.isDigit char hmem)
  · rfl

theorem simple_unknown {char : Char} (hletter : ∀ value, (char, value) ∉ letters) (hbreak : char ≠ '\n') :
    simple char = ['\\', char] := by
  unfold simple
  split
  all_goals first | rfl | simp [letters] at hletter hbreak

theorem simple_letter {char value : Char} (h : (char, value) ∈ letters) :
    isOctalDigit char = false ∧ hexCount? char = none ∧ simple char = [value] := by
  have hall : ∀ pair ∈ letters,
      isOctalDigit pair.1 = false ∧ hexCount? pair.1 = none ∧ simple pair.1 = [pair.2] := by decide
  exact hall _ h

theorem Denotes.unique {unit : Written} {value value' : List Char} (h : Denotes unit value)
    (h' : Denotes unit value') : value = value' := by
  cases h with
  | letter hletter =>
      cases h' with
      | letter hletter' => rw [← (simple_letter hletter).2.2, (simple_letter hletter').2.2]
  | octal hcode =>
      cases h' with
      | octal hcode' => rw [Char.toNat_inj.mp (hcode.unique hcode')]
  | hex _ hcode =>
      cases h' with
      | hex _ hcode' => rw [Char.toNat_inj.mp (hcode.unique hcode')]
  | _ =>
      cases h'
      rfl

theorem verbatim_value?_iff {unit : Written} {text : List Char} (h : Denotes unit text) (value : List Char) :
    (Segment.verbatim text).value? = some value ↔ Denotes unit value := by
  rw [Segment.value?, Option.some_inj]
  constructor
  · rintro rfl
    exact h
  · exact h.unique

theorem octal_value?_iff (digits value : List Char) :
    (Segment.octal digits).value? = some value ↔ Denotes (.octal digits) value := by
  rw [Segment.value?, code_value?_iff]
  constructor
  · rintro ⟨char, rfl, hcode⟩
    exact .octal hcode
  · intro hdenotes
    cases hdenotes with
    | octal hcode => exact ⟨_, rfl, hcode⟩

/-- A code with all its digits. -/
theorem hex_value?_iff {char : Char} {digits : List Char} (hletter : (char, digits.length) ∈ codeLetters)
    (value : List Char) :
    (Segment.hex digits.length digits).value? = some value ↔ Denotes (.hex char digits) value := by
  rw [Segment.value?, if_pos rfl, code_value?_iff]
  constructor
  · rintro ⟨code, rfl, hcode⟩
    exact .hex hletter hcode
  · intro hdenotes
    cases hdenotes with
    | hex _ hcode => exact ⟨_, rfl, hcode⟩

/-- The first segment of a text stands for what its first unit does, and the other segments are those of the rest
unless the unit stands for nothing. -/
theorem Takes.segments {unit : Written} {text rest : List Char} (h : Takes unit text rest) :
    ∃ segment more, Escape.segments text = segment :: more ∧
      (∀ value, segment.value? = some value ↔ Denotes unit value) ∧
      (segment.value? ≠ none → more = Escape.segments rest) := by
  cases h with
  | @plain char _ hchar =>
      exact ⟨.verbatim [char], _, segments_of_first? (first?_plain _ hchar), verbatim_value?_iff .plain, fun _ => rfl⟩
  | @letter char value _ hletter =>
      obtain ⟨hoctal, hcount, hsimple⟩ := simple_letter hletter
      refine ⟨.verbatim [value], _, ?_, verbatim_value?_iff (.letter hletter), fun _ => rfl⟩
      rw [segments_of_first? (first?_simple _ hoctal hcount), hsimple]
  | @octal digit more _ hdigit hmore =>
      refine ⟨.octal (digit :: more), _, ?_, octal_value?_iff _, fun _ => rfl⟩
      apply segments_of_first?
      rw [first?, if_pos (isOctalDigit_iff.mpr hdigit)]
      dsimp only
      rw [hmore.takeWhile_take, List.drop_left]
  | @hex char count digits _ hletter hdigits =>
      have hoctal : ¬isOctalDigit char = true := by
        rw [isOctalDigit_iff]
        exact (not_isDigit_of_codeLetter hletter).1
      have hsegments : Escape.segments ('\\' :: char :: (digits ++ rest)) =
          .hex count ((digits ++ rest).take count) :: Escape.segments ((digits ++ rest).drop count) := by
        apply segments_of_first?
        rw [first?, if_neg hoctal, hexCount?_eq_some_iff.mpr hletter]
      refine ⟨_, _, hsegments, ?_⟩
      rcases hdigits.length_le.lt_or_eq with hlt | rfl
      · rw [hdigits.value?_eq_none hlt]
        refine ⟨fun value => iff_of_false (Option.some_ne_none value).symm ?_, fun hne => absurd rfl hne⟩
        intro hdenotes
        cases hdenotes with
        | hex hall _ => exact absurd (codeLetters_unique hletter hall) hlt.ne'
      · rw [List.take_left, List.drop_left]
        exact ⟨hex_value?_iff hletter, fun _ => rfl⟩
  | lineBreak =>
      exact ⟨_, _, segments_of_first? (first?_simple _ rfl rfl), verbatim_value?_iff .lineBreak, fun _ => rfl⟩
  | loneBackslash =>
      exact ⟨.verbatim ['\\'], _, segments_of_first? rfl, verbatim_value?_iff .loneBackslash, fun _ => rfl⟩
  | @unknown char _ hletter hdigit hcode hbreak =>
      have hoctal : isOctalDigit char = false := by
        rw [← Bool.not_eq_true, isOctalDigit_iff]
        exact hdigit
      have hcount : hexCount? char = none := by
        rw [Option.eq_none_iff_forall_ne_some]
        exact fun count hcount => hcode count (hexCount?_eq_some_iff.mp hcount)
      refine ⟨.verbatim ['\\', char], _, ?_, verbatim_value?_iff .unknown, fun _ => rfl⟩
      rw [segments_of_first? (first?_simple _ hoctal hcount), simple_unknown hletter hbreak]

theorem Split.mapM_value?_iff {text : List Char} {units : List Written} (h : Split text units)
    {values : List (List Char)} :
    (Escape.segments text).mapM Segment.value? = some values ↔ List.Forall₂ Denotes units values := by
  induction h generalizing values with
  | nil =>
      rw [segments_nil, List.mapM_nil, List.forall₂_nil_left_iff]
      exact Option.some_inj.trans eq_comm
  | @cons unit units text rest hunit _ ih =>
      obtain ⟨segment, more, hsegments, hvalue, hmore⟩ := hunit.segments
      rw [hsegments, List.mapM_cons]
      cases hfirst : segment.value? with
      | none =>
          refine iff_of_false (Option.some_ne_none values).symm ?_
          rintro (_ | ⟨hdenotes, _⟩)
          exact absurd ((hvalue _).mpr hdenotes) (by simp [hfirst])
      | some value =>
          rw [hmore (by simp [hfirst])]
          simp only [Option.bind_eq_bind, Option.bind_some, Option.bind_eq_some_iff, Option.pure_def, Option.some_inj,
            ih, List.forall₂_cons_left_iff, ← hvalue, hfirst]
          constructor
          · rintro ⟨values, hvalues, rfl⟩
            exact ⟨value, values, rfl, hvalues, rfl⟩
          · rintro ⟨_, values, rfl, hvalues, rfl⟩
            exact ⟨values, hvalues, rfl⟩

/-! ### All or nothing -/

/-- Only a code can fail to stand for something: an octal one is too small to be no character. -/
theorem Takes.exists_denotes {unit : Written} {text rest : List Char} (h : Takes unit text rest)
    (hsound : unit.IsSound) : ∃ value, Denotes unit value := by
  cases h with
  | plain => exact ⟨_, .plain⟩
  | letter hletter => exact ⟨_, .letter hletter⟩
  | @octal digit more _ hdigit hmore =>
      obtain ⟨number, hcounts⟩ := exists_counts (List.forall_mem_cons.mpr ⟨hdigit, hmore.isDigit⟩)
      have hvalid : number.isValidChar := by
        have hlength : (digit :: more).length ≤ 3 := Nat.succ_le_succ hmore.length_le
        have hlt : number < 16 ^ 3 :=
          (hcounts.lt (by decide)).trans_le (Nat.pow_le_pow_right (by decide) hlength)
        exact .inl (hlt.trans (by decide))
      refine ⟨[Char.ofNat number], .octal ?_⟩
      rwa [Char.toNat_ofNat, if_pos hvalid]
  | hex =>
      obtain ⟨hletter, char, hcode⟩ := hsound
      exact ⟨_, .hex hletter hcode⟩
  | lineBreak => exact ⟨_, .lineBreak⟩
  | loneBackslash => exact ⟨_, .loneBackslash⟩
  | unknown => exact ⟨_, .unknown⟩

theorem Denotes.isSound {unit : Written} {value : List Char} (h : Denotes unit value) : unit.IsSound := by
  cases h with
  | hex hletter hcode => exact ⟨hletter, _, hcode⟩
  | _ => trivial

theorem Split.exists_denotes {text : List Char} {units : List Written} (h : Split text units)
    (hsound : ∀ unit ∈ units, unit.IsSound) : ∃ values, List.Forall₂ Denotes units values := by
  induction h with
  | nil => exact ⟨[], .nil⟩
  | cons hunit _ ih =>
      rw [List.forall_mem_cons] at hsound
      obtain ⟨value, hvalue⟩ := hunit.exists_denotes hsound.1
      obtain ⟨values, hvalues⟩ := ih hsound.2
      exact ⟨value :: values, .cons hvalue hvalues⟩

theorem Split.decode_of_isSound {text : List Char} {units : List Written} (h : Split text units)
    (hsound : ∀ unit ∈ units, unit.IsSound) :
    ∃ values, List.Forall₂ Denotes units values ∧ decode text = values.flatten := by
  obtain ⟨values, hvalues⟩ := h.exists_denotes hsound
  refine ⟨values, hvalues, ?_⟩
  rw [decode, h.mapM_value?_iff.mpr hvalues]

theorem Split.decode_of_not_isSound {text : List Char} {units : List Written} (h : Split text units)
    (hsound : ∃ unit ∈ units, ¬unit.IsSound) : decode text = text := by
  obtain ⟨unit, hunit, hunsound⟩ := hsound
  have hnone : (Escape.segments text).mapM Segment.value? = none := by
    rw [Option.eq_none_iff_forall_ne_some]
    intro values hvalues
    have hdenotes : List.Forall₂ (fun unit value => unit.IsSound ∧ Denotes unit value) units values :=
      (h.mapM_value?_iff.mp hvalues).imp fun _ _ hdenotes => ⟨hdenotes.isSound, hdenotes⟩
    exact hunsound (((List.forall₂_and_left _ _).mp hdenotes).1 unit hunit)
  rw [decode, hnone]

/-! ### Codes and words -/

namespace Segment

def digits : Segment → List Char
  | verbatim _ => []
  | octal digits => digits
  | hex _ digits => digits

/-- The base in which the digits count. -/
def base : Segment → Nat
  | verbatim _ => 8
  | octal _ => 8
  | hex _ _ => 16

end Segment

theorem length_digits_le_of_first? {text rest : List Char} {segment : Segment}
    (h : first? text = some (segment, rest)) : segment.digits.length ≤ 8 := by
  revert h
  fun_cases first? text with
  | case1 =>
      intro h
      cases h
  | case3 char tail hoctal more =>
      rintro ⟨⟩
      have hmore : more.length ≤ 2 := (List.takeWhile_prefix _).length_le.trans (List.length_take_le _ _)
      exact Nat.succ_le_succ (hmore.trans (by decide))
  | case4 char tail hoctal count hcount =>
      rintro ⟨⟩
      have hall : ∀ pair ∈ codeLetters, pair.2 ≤ 8 := by decide
      exact (List.length_take_le _ _).trans (hall _ (hexCount?_eq_some_iff.mp hcount))
  | case2 | case5 | case6 =>
      rintro ⟨⟩
      exact Nat.zero_le _

theorem length_digits_le (text : List Char) : ∀ segment ∈ segments text, segment.digits.length ≤ 8 := by
  fun_induction segments text with
  | case1 => nofun
  | case2 text segment rest hfirst _ ih => exact List.forall_mem_cons.mpr ⟨length_digits_le_of_first? hfirst, ih⟩

/-- What the first digits of a segment count never exceeds a word of 32 bits. -/
theorem code_lt_of_mem_segments {text : List Char} {segment : Segment} (h : segment ∈ segments text)
    {front : List Char} (hfront : front <+: segment.digits) {code : Nat}
    (hcode : code? segment.base front = some code) : code < 2 ^ 32 := by
  have hbase : segment.base ≤ 16 := by cases segment <;> simp [Segment.base]
  have hlength : front.length ≤ 8 := hfront.length_le.trans (length_digits_le text segment h)
  calc code < 16 ^ front.length := (code?_eq_some_iff.mp hcode).lt hbase
    _ ≤ 16 ^ 8 := Nat.pow_le_pow_right (by decide) hlength
    _ = 2 ^ 32 := by decide

/-! ### Quotes -/

theorem unquoted_inner (literal : List Char) : Unquoted literal (inner literal) := by
  unfold inner
  split
  next rest =>
    split_ifs with hlast
    · left
      rw [List.dropLast_append_getLast? '"' hlast]
    · right
      refine ⟨fun text heq => hlast ?_, rfl⟩
      rw [(List.cons.inj heq).2, List.getLast?_concat]
  next hquote => exact .inr ⟨fun text => hquote _, rfl⟩

end Escape

/-- A literal without its quotes is split into units in exactly one way, and it stands for what they do, one behind the
other. If a code has too few digits or no character has it, the literal stands for all that is between its quotes, as
it is written. The digits of every code, and the first ones of them, count no more than a word of 32 bits holds. -/
theorem literalText_units (literal : String) :
    ∃ inner units, Escape.Unquoted literal.toList inner ∧ (∀ units', Escape.Split inner units' ↔ units' = units) ∧
      ((∀ unit ∈ units, unit.IsSound) → ∃ values, List.Forall₂ Escape.Denotes units values ∧
        literalText literal = String.ofList values.flatten) ∧
      ((∃ unit ∈ units, ¬unit.IsSound) → literalText literal = String.ofList inner) ∧
      ∀ segment ∈ Escape.segments inner, ∀ front, front <+: segment.digits →
        ∀ code, Escape.code? segment.base front = some code → code < 2 ^ 32 := by
  obtain ⟨units, hsplit⟩ := Escape.exists_split (Escape.inner literal.toList)
  refine ⟨Escape.inner literal.toList, units, Escape.unquoted_inner _, ?_, ?_, ?_, ?_⟩
  · intro units'
    constructor
    · exact fun h => h.unique hsplit
    · rintro rfl
      exact hsplit
  · intro hsound
    obtain ⟨values, hvalues, hdecode⟩ := hsplit.decode_of_isSound hsound
    exact ⟨values, hvalues, by rw [literalText, hdecode]⟩
  · intro hunsound
    rw [literalText, hsplit.decode_of_not_isSound hunsound]
  · intro segment hsegment front hfront code hcode
    exact Escape.code_lt_of_mem_segments hsegment hfront hcode

end ScriptLang
