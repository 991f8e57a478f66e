import Mathlib
import ScriptLang.Proofs.Token.Layout
import ScriptLang.Text.Escape
/-!
# What a string literal is

Two parts of the language look into string literals: scanning finds where one ends, and decoding finds what it stands
for. `Units` is the form that both go by: single characters, and backslashes that take a character along. Scanning
allows every character behind a backslash but the end of a line. Decoding knows that one too, and it goes through a
text of units without ever coming to a backslash that has nothing behind it.
-/

namespace ScriptLang

namespace Escape

/-- A text of characters that are neither quotes nor backslashes, and of backslashes with an allowed character
behind each. -/
inductive Units (allowed : Char → Prop) : List Char → Prop
  | nil : Units allowed []
  | plain {char : Char} {rest : List Char} (hquote : char ≠ '"') (hbackslash : char ≠ '\\')
      (hrest : Units allowed rest) : Units allowed (char :: rest)
  | escape {char : Char} {rest : List Char} (hallowed : allowed char) (hrest : Units allowed rest) :
      Units allowed ('\\' :: char :: rest)

theorem Units.tail {allowed : Char → Prop} {char : Char} {rest : List Char} (h : Units allowed (char :: rest))
    (hchar : char ≠ '\\') : Units allowed rest := by
  cases h with
  | plain _ _ hrest => exact hrest
  | escape => exact absurd rfl hchar

theorem Units.drop {allowed : Char → Prop} {text : List Char} {count : Nat} (h : Units allowed text)
    (hfront : ∀ char ∈ text.take count, char ≠ '\\') : Units allowed (text.drop count) := by
  induction count generalizing text with
  | zero => exact h
  | succ count ih =>
      cases text with
      | nil => exact .nil
      | cons char rest =>
          rw [List.take_succ_cons, List.forall_mem_cons] at hfront
          exact ih (h.tail hfront.1) hfront.2

/-- The rule for string tokens declares this form, with no line break behind a backslash. -/
theorem units_iff_matches {inner : List Char} :
    Units (· ≠ '\n') inner ↔ (Pattern.many .stringUnit).Matches inner := by
  constructor
  · intro h
    induction h with
    | nil => exact .manyNil
    | plain hquote hbackslash _ ih =>
        exact .manyCons (Pattern.matches_stringUnit_iff.mpr (.inl ⟨_, rfl, hquote, hbackslash⟩)) ih
    | escape hallowed _ ih =>
        exact .manyCons (Pattern.matches_stringUnit_iff.mpr (.inr ⟨_, rfl, hallowed⟩)) ih
  · intro h
    generalize hpattern : Pattern.many .stringUnit = pattern at h
    induction h with
    | manyNil => exact .nil
    | manyCons hfirst _ _ ih =>
        cases hpattern
        rcases Pattern.matches_stringUnit_iff.mp hfirst with ⟨char, rfl, hquote, hbackslash⟩ | ⟨char, rfl, hchar⟩
        · exact .plain hquote hbackslash (ih rfl)
        · exact .escape hchar (ih rfl)
    | _ => cases hpattern

/-! ### Decoding, one segment at a time -/

/-- Decoding goes on from a text to what is left behind its first segment, unless that segment stands for nothing. -/
def Advances (text rest : List Char) : Prop :=
  ∃ segment, first? text = some (segment, rest) ∧ segment.value? ≠ none

theorem hexDigit?_ne_none_of_code? {base code : Nat} {digits : List Char}
    (h : digits.foldlM (fun code char => (hexDigit? char).map (base * code + ·)) code ≠ none) :
    ∀ char ∈ digits, hexDigit? char ≠ none := by
  induction digits generalizing code with
  | nil => simp
  | cons digit digits ih =>
      rw [List.foldlM_cons] at h
      cases hdigit : hexDigit? digit with
      | none => simp [hdigit] at h
      | some value =>
          rw [hdigit] at h
          rw [List.forall_mem_cons]
          exact ⟨by simp [hdigit], ih h⟩

/-- No backslash is among the digits of a code. -/
theorem ne_backslash_of_code? {base : Nat} {digits : List Char} (h : code? base digits ≠ none) :
    ∀ char ∈ digits, char ≠ '\\' := by
  rintro char hchar rfl
  exact hexDigit?_ne_none_of_code? h '\\' hchar rfl

theorem ne_backslash_of_isOctalDigit {char : Char} (h : isOctalDigit char = true) : char ≠ '\\' := by
  rintro rfl
  cases h

theorem code?_ne_none_of_hex {count : Nat} {digits : List Char} (h : (Segment.hex count digits).value? ≠ none) :
    code? 16 digits ≠ none := by
  intro hcode
  simp [Segment.value?, hcode] at h

/-- Units stay units while a text is decoded. The digits of a code are units of their own. -/
theorem Units.advances {allowed : Char → Prop} {text rest : List Char} (h : Units allowed text)
    (hadvances : Advances text rest) : Units allowed rest := by
  obtain ⟨segment, hfirst, hvalue⟩ := hadvances
  cases h with
  | nil => cases hfirst
  | @plain char tail hquote hbackslash hrest =>
      rw [first?_plain tail hbackslash] at hfirst
      cases hfirst
      exact hrest
  | @escape char tail hallowed hrest =>
      rw [first?] at hfirst
      split at hfirst
      · cases hfirst
        have hmore : (tail.take 2).takeWhile isOctalDigit <+: tail :=
          (List.takeWhile_prefix _).trans (List.take_prefix _ _)
        apply hrest.drop
        rw [← List.prefix_iff_eq_take.mp hmore]
        exact fun digit hdigit => ne_backslash_of_isOctalDigit (List.mem_takeWhile_imp hdigit)
      · split at hfirst
        · cases hfirst
          exact hrest.drop (ne_backslash_of_code? (code?_ne_none_of_hex hvalue))
        · cases hfirst
          exact hrest

/-- A text of units is never decoded down to a backslash with nothing behind it. -/
theorem Units.not_reaches_backslash {allowed : Char → Prop} {text : List Char} (h : Units allowed text) :
    ¬Relation.ReflTransGen Advances text ['\\'] := by
  have hunits (rest : List Char) (hreaches : Relation.ReflTransGen Advances text rest) : Units allowed rest := by
    induction hreaches with
    | refl => exact h
    | tail _ hadvances ih => exact ih.advances hadvances
  intro hreaches
  cases hunits ['\\'] hreaches with
  | plain _ hbackslash _ => exact hbackslash rfl

end Escape

/-! ### Scanning -/

/-- A text between quotes. -/
def quotation (inner : List Char) : String :=
  String.ofList ('"' :: (inner ++ ['"']))

theorem inner_quotation (inner : List Char) : Escape.inner (quotation inner).toList = inner := by
  simp [quotation, Escape.inner]

theorem quotation_injective {inner inner' : List Char} (h : quotation inner = quotation inner') : inner = inner' := by
  rw [← inner_quotation inner, h, inner_quotation]

theorem Scanned.admits {position : Position} {text : List Char} {tokens : List Token}
    {illegals : List IllegalCharacter} (h : Scanned position text tokens illegals) :
    ∀ token ∈ tokens, token.kind.Admits token.text.toList := by
  intro token htoken
  obtain ⟨_, hmunch⟩ := h.exists_munch token htoken
  exact hmunch.admitted

/-- A string token is a quotation of units. -/
theorem exists_units_of_string {source : String} {token : Token} (hmem : token ∈ tokensOf source)
    (hkind : token.kind = .string) : ∃ inner, token.text = quotation inner ∧ Escape.Units (· ≠ '\n') inner := by
  have hadmits := (Piece.scanned_cut Position.start source.toList).admits token hmem
  rw [hkind] at hadmits
  generalize htext : token.text.toList = text at hadmits
  cases hadmits with
  | fixed hrule =>
      have hall : ∀ rule ∈ Kind.fixedRules, rule.1 ≠ .string := by decide
      exact absurd rfl (hall _ hrule)
  | string hmatches =>
      obtain ⟨inner, rfl, hinner⟩ := Pattern.matches_string_iff.mp hmatches
      exact ⟨inner, by rw [quotation, ← htext, String.ofList_toList], Escape.units_iff_matches.mpr hinner⟩

theorem scanned_quotation {inner : List Char} (h : Escape.Units (· ≠ '\n') inner) :
    Scanned Position.start (quotation inner).toList [⟨.string, quotation inner, Position.start⟩] [] := by
  have hmatches : Pattern.string.Matches ('"' :: (inner ++ ['"'])) :=
    Pattern.matches_string_iff.mpr ⟨inner, rfl, Escape.units_iff_matches.mp h⟩
  have hfound := Lexeme.covers_string hmatches (List.prefix_append _ [])
  have hscanned := @Scanned.lexeme ⟨.string, '"' :: (inner ++ ['"'])⟩ [] Position.start [] [] hfound .done
  rw [List.append_nil] at hscanned
  rw [quotation, String.toList_ofList]
  exact hscanned

/-- A quoted text is one string token, and nothing in it is illegal, exactly if it is made of units and no backslash
in it takes a line break along. Every string token is of this form, so decoding takes off both quotes and, going on
from one segment to the next, never comes to a backslash with nothing behind it. -/
theorem string_token_iff_units (inner : List Char) (source : String) :
    (illegalCharactersOf (quotation inner) = [] ∧
        tokensOf (quotation inner) = [⟨.string, quotation inner, Position.start⟩] ↔
      Escape.Units (· ≠ '\n') inner) ∧
    (∀ text, Escape.segments text =
      match Escape.first? text with
      | none => []
      | some (segment, rest) => segment :: Escape.segments rest) ∧
    ∀ token ∈ tokensOf source, token.kind = .string →
      ∃ text, token.text = quotation text ∧ Escape.Units (· ≠ '\n') text ∧
        Escape.inner token.text.toList = text ∧ ¬Relation.ReflTransGen Escape.Advances text ['\\'] := by
  refine ⟨?_, Escape.segments_eq, ?_⟩
  · constructor
    · rintro ⟨_, htokens⟩
      have hmem : (⟨.string, quotation inner, Position.start⟩ : Token) ∈ tokensOf (quotation inner) := by
        simp [htokens]
      obtain ⟨text, htext, hunits⟩ := exists_units_of_string hmem rfl
      rw [quotation_injective htext]
      exact hunits
    · intro hunits
      obtain ⟨htokens, hillegals⟩ := Piece.eq_cut_of_scanned (scanned_quotation hunits)
      exact ⟨hillegals.symm, htokens.symm⟩
  · intro token hmem hkind
    obtain ⟨text, htext, hunits⟩ := exists_units_of_string hmem hkind
    refine ⟨text, htext, hunits, ?_, hunits.not_reaches_backslash⟩
    rw [htext, inner_quotation]

/-- A backslash before a line break is a unit that decoding removes, yet a quotation of it is no token. -/
theorem string_token_line_break :
    Escape.Units (fun _ => True) ['\\', '\n'] ∧ literalText (quotation ['\\', '\n']) = "" ∧
      tokensOf (quotation ['\\', '\n']) = [] ∧
      illegalCharactersOf (quotation ['\\', '\n']) =
        [⟨'"', ⟨1, 1, 0⟩⟩, ⟨'\\', ⟨1, 2, 1⟩⟩, ⟨'"', ⟨2, 1, 3⟩⟩] := by
  refine ⟨.escape trivial .nil, ?_⟩
  cbv

end ScriptLang
