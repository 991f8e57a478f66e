import ScriptLang.Token.Scan
/-!
# The rules of the tokens

Every kind of token is declared by the texts that it may have: fixed texts for operators, brackets and
keywords, and regular expressions for the other kinds. Nothing here says how a text is cut; that the cutting
follows these rules is proved from them.
-/

namespace ScriptLang

/-- A regular expression over characters. -/
inductive Pattern where
  | fixed (text : String)
  | one (allowed : Char → Bool)
  | seq (first second : Pattern)
  | either (left right : Pattern)
  | many (item : Pattern)

namespace Pattern

def atLeastOne (item : Pattern) : Pattern := .seq item (.many item)

def optional (item : Pattern) : Pattern := .either item (.fixed "")

/-- The pattern describes the whole text. -/
inductive Matches : Pattern → List Char → Prop
  | fixed {text : String} : Matches (.fixed text) text.toList
  | one {allowed : Char → Bool} {char : Char} (hallowed : allowed char = true) : Matches (.one allowed) [char]
  | seq {first second : Pattern} {before after : List Char} (hfirst : Matches first before)
      (hsecond : Matches second after) : Matches (.seq first second) (before ++ after)
  | left {left right : Pattern} {text : List Char} (hleft : Matches left text) :
      Matches (.either left right) text
  | right {left right : Pattern} {text : List Char} (hright : Matches right text) :
      Matches (.either left right) text
  | manyNil {item : Pattern} : Matches (.many item) []
  | manyCons {item : Pattern} {first rest : List Char} (hfirst : Matches item first)
      (hrest : Matches (.many item) rest) : Matches (.many item) (first ++ rest)

theorem matches_fixed_iff {text : String} {chars : List Char} :
    (Pattern.fixed text).Matches chars ↔ chars = text.toList := by
  constructor
  · rintro ⟨⟩
    rfl
  · rintro rfl
    exact .fixed

theorem matches_one_iff {allowed : Char → Bool} {chars : List Char} :
    (Pattern.one allowed).Matches chars ↔ ∃ char, chars = [char] ∧ allowed char = true := by
  constructor
  · rintro (_ | hallowed)
    exact ⟨_, rfl, hallowed⟩
  · rintro ⟨char, rfl, hallowed⟩
    exact .one hallowed

theorem matches_seq_iff {first second : Pattern} {chars : List Char} :
    (Pattern.seq first second).Matches chars ↔
      ∃ before after, chars = before ++ after ∧ first.Matches before ∧ second.Matches after := by
  constructor
  · rintro (_ | _ | ⟨hfirst, hsecond⟩)
    exact ⟨_, _, rfl, hfirst, hsecond⟩
  · rintro ⟨before, after, rfl, hfirst, hsecond⟩
    exact .seq hfirst hsecond

theorem matches_either_iff {left right : Pattern} {chars : List Char} :
    (Pattern.either left right).Matches chars ↔ left.Matches chars ∨ right.Matches chars := by
  constructor
  · rintro (_ | _ | _ | hleft | hright)
    · exact .inl hleft
    · exact .inr hright
  · rintro (hleft | hright)
    · exact .left hleft
    · exact .right hright

/-- Any number of characters of a class. -/
theorem matches_many_one_iff {allowed : Char → Bool} {chars : List Char} :
    (Pattern.many (.one allowed)).Matches chars ↔ ∀ char ∈ chars, allowed char = true := by
  constructor
  · intro h
    generalize hpattern : Pattern.many (.one allowed) = pattern at h
    induction h with
    | manyNil => simp
    | manyCons hfirst _ _ ih =>
        cases hpattern
        obtain ⟨char, rfl, hallowed⟩ := matches_one_iff.mp hfirst
        simpa [hallowed] using ih rfl
    | _ => cases hpattern
  · intro h
    induction chars with
    | nil => exact .manyNil
    | cons char chars ih =>
        rw [List.forall_mem_cons] at h
        exact .manyCons (.one h.1) (ih h.2)

theorem matches_atLeastOne_one_iff {allowed : Char → Bool} {chars : List Char} :
    (Pattern.one allowed).atLeastOne.Matches chars ↔
      ∃ first rest, chars = first :: rest ∧ allowed first = true ∧ ∀ char ∈ rest, allowed char = true := by
  rw [atLeastOne, matches_seq_iff]
  constructor
  · rintro ⟨before, after, rfl, hfirst, hrest⟩
    obtain ⟨first, rfl, hallowed⟩ := matches_one_iff.mp hfirst
    exact ⟨first, after, rfl, hallowed, matches_many_one_iff.mp hrest⟩
  · rintro ⟨first, rest, rfl, hfirst, hrest⟩
    exact ⟨[first], rest, rfl, .one hfirst, matches_many_one_iff.mpr hrest⟩

/-! ### Classes of characters -/

def between (low high char : Char) : Bool :=
  low ≤ char && char ≤ high

/-- `[0-9]` -/
def digit : Pattern := .one (between '0' '9')

/-- `[a-zA-Z_]` -/
def isLetter (char : Char) : Bool :=
  between 'a' 'z' char || between 'A' 'Z' char || char == '_'

/-! ### The declared kinds -/

/-- `#[^\n]*` -/
def comment : Pattern := .seq (.fixed "#") (.many (.one (· ≠ '\n')))

/-- `[0-9]+(\.[0-9]+)?` -/
def number : Pattern := .seq digit.atLeastOne (optional (.seq (.fixed ".") digit.atLeastOne))

/-- `[^"\\]|\\.`, where a point is any character but the end of a line. -/
def stringUnit : Pattern :=
  .either (.one fun char => char ≠ '"' && char ≠ '\\') (.seq (.fixed "\\") (.one (· ≠ '\n')))

/-- `"([^"\\]|\\.)*"` -/
def string : Pattern := .seq (.fixed "\"") (.seq (.many stringUnit) (.fixed "\""))

/-- `[a-zA-Z_][a-zA-Z0-9_]*` -/
def identifier : Pattern :=
  .seq (.one isLetter) (.many (.one fun char => isLetter char || between '0' '9' char))

/-! ### Their texts -/

theorem between_zero_nine (char : Char) : between '0' '9' char = char.isDigit := rfl

theorem isLetter_eq_isWordStart (char : Char) : isLetter char = isWordStart char := by
  have hupper : between 'A' 'Z' char = char.isUpper := (Bool.decide_and _ _).symm
  have hlower : between 'a' 'z' char = char.isLower := rfl
  rw [isLetter, hupper, hlower, Bool.or_comm char.isLower]
  rfl

theorem isWordStart_or_digit (char : Char) : (isWordStart char || between '0' '9' char) = isWordPart char := by
  rw [between_zero_nine, isWordStart, isWordPart, Char.isAlphanum]
  rw [Bool.or_assoc, Bool.or_assoc, Bool.or_comm (char == '_')]

theorem matches_identifier_iff {chars : List Char} :
    identifier.Matches chars ↔
      ∃ first rest, chars = first :: rest ∧ isWordStart first = true ∧ ∀ char ∈ rest, isWordPart char = true := by
  rw [identifier, matches_seq_iff]
  simp only [matches_one_iff, matches_many_one_iff, isLetter_eq_isWordStart, isWordStart_or_digit]
  constructor
  · rintro ⟨_, rest, rfl, ⟨first, rfl, hfirst⟩, hrest⟩
    exact ⟨first, rest, rfl, hfirst, hrest⟩
  · rintro ⟨first, rest, rfl, hfirst, hrest⟩
    exact ⟨[first], rest, rfl, ⟨first, rfl, hfirst⟩, hrest⟩

theorem matches_comment_iff {chars : List Char} :
    comment.Matches chars ↔ ∃ rest, chars = '#' :: rest ∧ ∀ char ∈ rest, char ≠ '\n' := by
  rw [comment, matches_seq_iff]
  simp only [matches_fixed_iff, matches_many_one_iff, decide_eq_true_eq]
  constructor
  · rintro ⟨_, rest, rfl, rfl, hrest⟩
    exact ⟨rest, rfl, hrest⟩
  · rintro ⟨rest, rfl, hrest⟩
    exact ⟨['#'], rest, rfl, rfl, hrest⟩

theorem matches_digits_iff {chars : List Char} :
    digit.atLeastOne.Matches chars ↔ chars ≠ [] ∧ ∀ char ∈ chars, char.isDigit = true := by
  rw [digit, matches_atLeastOne_one_iff]
  simp only [between_zero_nine]
  constructor
  · rintro ⟨first, rest, rfl, hfirst, hrest⟩
    exact ⟨List.cons_ne_nil first rest, List.forall_mem_cons.mpr ⟨hfirst, hrest⟩⟩
  · rintro ⟨hne, hdigits⟩
    cases chars with
    | nil => exact absurd rfl hne
    | cons first rest => exact ⟨first, rest, rfl, List.forall_mem_cons.mp hdigits⟩

/-- A numeral is digits, or digits on both sides of a point. -/
theorem matches_number_iff {chars : List Char} :
    number.Matches chars ↔ ∃ whole, (whole ≠ [] ∧ ∀ char ∈ whole, char.isDigit = true) ∧
      (chars = whole ∨ ∃ fraction, (fraction ≠ [] ∧ ∀ char ∈ fraction, char.isDigit = true) ∧
        chars = whole ++ '.' :: fraction) := by
  rw [number, matches_seq_iff]
  simp only [optional, matches_either_iff, matches_seq_iff, matches_fixed_iff, matches_digits_iff]
  constructor
  · rintro ⟨whole, after, rfl, hwhole, (⟨_, fraction, rfl, rfl, hfraction⟩ | rfl)⟩
    · exact ⟨whole, hwhole, .inr ⟨fraction, hfraction, rfl⟩⟩
    · exact ⟨whole, hwhole, .inl (List.append_nil whole)⟩
  · rintro ⟨whole, hwhole, (rfl | ⟨fraction, hfraction, rfl⟩)⟩
    · exact ⟨chars, [], (List.append_nil chars).symm, hwhole, .inr rfl⟩
    · exact ⟨whole, '.' :: fraction, rfl, hwhole, .inl ⟨['.'], fraction, rfl, rfl, hfraction⟩⟩

theorem matches_stringUnit_iff {chars : List Char} :
    stringUnit.Matches chars ↔ (∃ char, chars = [char] ∧ char ≠ '"' ∧ char ≠ '\\') ∨
      ∃ char, chars = ['\\', char] ∧ char ≠ '\n' := by
  rw [stringUnit, matches_either_iff, matches_one_iff, matches_seq_iff]
  simp only [matches_fixed_iff, matches_one_iff, Bool.and_eq_true, decide_eq_true_eq]
  constructor
  · rintro (⟨char, rfl, hchar⟩ | ⟨_, _, rfl, rfl, ⟨char, rfl, hchar⟩⟩)
    · exact .inl ⟨char, rfl, hchar⟩
    · exact .inr ⟨char, rfl, hchar⟩
  · rintro (⟨char, rfl, hchar⟩ | ⟨char, rfl, hchar⟩)
    · exact .inl ⟨char, rfl, hchar⟩
    · exact .inr ⟨['\\'], [char], rfl, rfl, char, rfl, hchar⟩

theorem matches_string_iff {chars : List Char} :
    string.Matches chars ↔ ∃ inner, chars = '"' :: (inner ++ ['"']) ∧ (many stringUnit).Matches inner := by
  rw [string, matches_seq_iff]
  simp only [matches_fixed_iff, matches_seq_iff]
  constructor
  · rintro ⟨_, _, rfl, rfl, inner, _, rfl, hinner, rfl⟩
    exact ⟨inner, rfl, hinner⟩
  · rintro ⟨inner, rfl, hinner⟩
    exact ⟨['"'], inner ++ ['"'], rfl, rfl, inner, ['"'], rfl, hinner, rfl⟩

end Pattern

namespace Kind

def symbols : List (Kind × String) :=
  [(plus, "+"), (minus, "-"), (times, "*"), (divide, "/"), (assign, "="), (equal, "=="), (notEqual, "!="),
    (less, "<"), (greater, ">"), (lessEqual, "<="), (greaterEqual, ">="), (openParen, "("),
    (closeParen, ")"), (openBracket, "["), (closeBracket, "]"), (openBrace, "\x7b"), (closeBrace, "\x7d"),
    (dot, "."), (semicolon, ";"), (comma, ","), (colon, ":")]

def keywords : List (Kind × String) :=
  [(boolean, "true"), (boolean, "false"), (null, "null"), (ifWord, "if"), (elseifWord, "elseif"),
    (elseWord, "else"), (whileWord, "while"), (forWord, "for"), (inWord, "in"), (rangeWord, "range"),
    (printWord, "print")]

/-- The kinds with fixed texts. -/
def fixedRules : List (Kind × String) := symbols ++ keywords

/-- A kind of token may have a text. -/
inductive Admits : Kind → List Char → Prop
  | fixed {kind : Kind} {text : String} (hrule : (kind, text) ∈ fixedRules) : Admits kind text.toList
  | comment {text : List Char} (hmatches : Pattern.comment.Matches text) : Admits .comment text
  | number {text : List Char} (hmatches : Pattern.number.Matches text) : Admits .number text
  | string {text : List Char} (hmatches : Pattern.string.Matches text) : Admits .string text
  | identifier {text : List Char} (hmatches : Pattern.identifier.Matches text) : Admits .identifier text

end Kind

end ScriptLang
