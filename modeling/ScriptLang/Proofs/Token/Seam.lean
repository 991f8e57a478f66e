import ScriptLang.Proofs.Token.Layout
/-!
# Scanning across a line break

No token begins on one line and ends on another, strings apart, and a string ends at its closing quote whatever
follows. So a text that is scanned without an illegal character can be followed by a line break and any other
text: its tokens stay as they are, and the other text is scanned as it would be alone, only further down.
-/

namespace ScriptLang

/-! ### Further down -/

/-- The place so many lines further down and so many bytes further on, in the same column. -/
def Position.shift (lines bytes : Nat) (position : Position) : Position :=
  ⟨position.line + lines, position.column, position.offset + bytes⟩

def Token.shift (lines bytes : Nat) (token : Token) : Token :=
  { token with position := token.position.shift lines bytes }

def IllegalCharacter.shift (lines bytes : Nat) (illegal : IllegalCharacter) : IllegalCharacter :=
  { illegal with position := illegal.position.shift lines bytes }

section

variable (lines bytes : Nat)

theorem Position.advance_shift (position : Position) (char : Char) :
    (position.shift lines bytes).advance char = (position.advance char).shift lines bytes := by
  unfold Position.advance Position.shift
  split
  · simp only [Position.mk.injEq, true_and]
    omega
  · simp only [Position.mk.injEq, true_and]
    omega

theorem Position.after_shift (position : Position) (text : List Char) :
    (position.shift lines bytes).after text = (position.after text).shift lines bytes := by
  induction text generalizing position with
  | nil => rfl
  | cons char rest ih =>
      show ((position.shift lines bytes).advance char).after rest = _
      rw [Position.advance_shift, ih]
      rfl

/-- A text that stands further down is scanned in the same way. -/
theorem Scanned.shift {position : Position} {text : List Char} {tokens : List Token}
    {illegals : List IllegalCharacter} (h : Scanned position text tokens illegals) :
    Scanned (position.shift lines bytes) text (tokens.map (Token.shift lines bytes))
      (illegals.map (IllegalCharacter.shift lines bytes)) := by
  induction h with
  | done => exact .done
  | blank hblank _ ih =>
      rw [← Position.advance_shift] at ih
      exact .blank hblank ih
  | token hblank hmunch _ ih =>
      rw [← Position.after_shift] at ih
      exact .token hblank hmunch ih
  | illegal hblank hnone _ ih =>
      rw [← Position.advance_shift] at ih
      exact .illegal hblank hnone ih

end

/-- A new line starts in the first column, wherever the text in front of it ends. -/
theorem Position.after_newline (text : List Char) :
    Position.start.after (text ++ ['\n']) =
      Position.start.shift (Position.start.after text).line ((Position.start.after text).offset + 1) := by
  rw [Position.after_append]
  show (Position.start.after text).advance '\n' = _
  unfold Position.advance Position.shift Position.start
  simp only [if_true, Position.mk.injEq, true_and]
  exact ⟨Nat.add_comm _ _, (Nat.zero_add _).symm⟩

/-! ### No token crosses a line break -/

namespace Lexeme

/-- Only a string can have a line break in it. -/
theorem matches_string_of_newline {kind : Kind} {chars : List Char} (h : kind.Admits chars) (hmem : '\n' ∈ chars) :
    Pattern.string.Matches chars := by
  cases h with
  | @fixed kind fixed hrule =>
      have hall : ∀ rule ∈ Kind.fixedRules, '\n' ∉ rule.2.toList := by decide
      exact absurd hmem (hall (kind, fixed) hrule)
  | comment hmatches =>
      obtain ⟨rest, rfl, hrest⟩ := Pattern.matches_comment_iff.mp hmatches
      rcases List.mem_cons.mp hmem with heq | hmem
      · cases heq
      · exact absurd rfl (hrest '\n' hmem)
  | number hmatches =>
      obtain ⟨whole, ⟨_, hwhole⟩, (rfl | ⟨fraction, ⟨_, hfraction⟩, rfl⟩)⟩ := Pattern.matches_number_iff.mp hmatches
      · exact absurd (hwhole '\n' hmem) (by decide)
      · rcases List.mem_append.mp hmem with hmem | hmem
        · exact absurd (hwhole '\n' hmem) (by decide)
        · rcases List.mem_cons.mp hmem with heq | hmem
          · cases heq
          · exact absurd (hfraction '\n' hmem) (by decide)
  | string hmatches => exact hmatches
  | identifier hmatches =>
      obtain ⟨first, rest, rfl, hfirst, hrest⟩ := Pattern.matches_identifier_iff.mp hmatches
      rcases List.mem_cons.mp hmem with rfl | hmem
      · exact absurd hfirst (by decide)
      · exact absurd (hrest '\n' hmem) (by decide)

/-- Only a string begins with a quote. -/
theorem matches_string_of_quote {kind : Kind} {rest : List Char} (h : kind.Admits ('"' :: rest)) :
    Pattern.string.Matches ('"' :: rest) := by
  generalize hchars : '"' :: rest = chars at h ⊢
  cases h with
  | @fixed kind fixed hrule =>
      have hall : ∀ rule ∈ Kind.fixedRules, rule.2.toList.head? ≠ some '"' := by decide
      exact absurd (by rw [← hchars]; rfl) (hall (kind, fixed) hrule)
  | comment hmatches =>
      obtain ⟨more, rfl, _⟩ := Pattern.matches_comment_iff.mp hmatches
      cases hchars
  | number hmatches =>
      obtain ⟨whole, ⟨hne, hwhole⟩, hnumber⟩ := Pattern.matches_number_iff.mp hmatches
      obtain ⟨first, more, rfl⟩ := List.exists_cons_of_ne_nil hne
      have hfirst : first.isDigit = true := hwhole first List.mem_cons_self
      rcases hnumber with rfl | ⟨fraction, _, rfl⟩
      · cases hchars
        exact absurd hfirst (by decide)
      · cases hchars
        exact absurd hfirst (by decide)
  | string hmatches => exact hmatches
  | identifier hmatches =>
      obtain ⟨first, more, rfl, hfirst, _⟩ := Pattern.matches_identifier_iff.mp hmatches
      cases hchars
      exact absurd hfirst (by decide)

end Lexeme

theorem prefix_of_not_mem {chars text more : List Char} {char : Char} (h : chars <+: text ++ char :: more)
    (hmem : char ∉ chars) : chars <+: text := by
  rcases List.prefix_or_prefix_of_prefix h (List.prefix_append text (char :: more)) with hchars | ⟨beyond, rfl⟩
  · exact hchars
  · rw [List.prefix_append_right_inj] at h
    cases beyond with
    | nil => simp
    | cons first beyond =>
        obtain ⟨rfl, _⟩ := List.cons_prefix_cons.mp h
        simp at hmem

/-- The longest token at the front stays the longest if a line break follows the text. -/
theorem Munch.append_newline {text taken : List Char} {kind : Kind} (h : Munch text kind taken)
    (more : List Char) : Munch (text ++ '\n' :: more) kind taken := by
  have hfront : taken <+: text ++ '\n' :: more := h.front.trans (List.prefix_append _ _)
  refine ⟨h.nonempty, hfront, h.admitted, ?_, h.fixedFirst⟩
  intro other chars hother hchars
  by_cases hmem : '\n' ∈ chars
  · -- Both are strings then, and a quote has only one that closes it.
    have hstring := Lexeme.matches_string_of_newline hother hmem
    obtain ⟨first, rest, rfl⟩ := List.exists_cons_of_ne_nil h.nonempty
    have hquote : first = '"' := by
      obtain ⟨inner, rfl, _⟩ := Pattern.matches_string_iff.mp hstring
      obtain ⟨beyond, hbeyond⟩ := hchars
      obtain ⟨beyond', hbeyond'⟩ := hfront
      rw [← hbeyond] at hbeyond'
      exact (List.cons.inj hbeyond').1
    subst hquote
    have hfound := Lexeme.covers_string (Lexeme.matches_string_of_quote h.admitted) hfront
    rw [Lexeme.covers_string hstring hchars] at hfound
    cases hfound
    exact Nat.le_refl _
  · exact h.longest other chars hother (prefix_of_not_mem hchars hmem)

theorem Scanned.append_newline {position : Position} {text more : List Char} {tokens moreTokens : List Token}
    {illegals : List IllegalCharacter} (h : Scanned position text tokens [])
    (hmore : Scanned (position.after (text ++ ['\n'])) more moreTokens illegals) :
    Scanned position (text ++ '\n' :: more) (tokens ++ moreTokens) illegals := by
  generalize hnone : ([] : List IllegalCharacter) = none at h
  induction h with
  | done => exact .blank (by simp) hmore
  | blank hblank _ ih => exact .blank hblank (ih hmore hnone)
  | token hblank hmunch _ ih =>
      have hmunch := hmunch.append_newline more
      rw [List.append_assoc] at hmunch hmore ⊢
      rw [Position.after_append] at hmore
      exact .token hblank hmunch (ih hmore hnone)
  | illegal => cases hnone

/-- What follows a source without illegal characters on a new line is scanned on its own. -/
theorem tokensOf_append_newline {source : String} (h : illegalCharactersOf source = []) (more : String) :
    let place := Position.start.after source.toList
    tokensOf (source ++ "\n" ++ more) =
        tokensOf source ++ (tokensOf more).map (Token.shift place.line (place.offset + 1)) ∧
      illegalCharactersOf (source ++ "\n" ++ more) =
        (illegalCharactersOf more).map (IllegalCharacter.shift place.line (place.offset + 1)) := by
  intro place
  have hsource : Scanned Position.start source.toList (tokensOf source) (illegalCharactersOf source) :=
    Piece.scanned_cut Position.start source.toList
  have hmore := (Piece.scanned_cut Position.start more.toList).shift place.line (place.offset + 1)
  rw [h] at hsource
  rw [← Position.after_newline] at hmore
  have htext : (source ++ "\n" ++ more).toList = source.toList ++ '\n' :: more.toList := by
    simp [String.toList_append]
  have hjoined := hsource.append_newline hmore
  rw [← htext] at hjoined
  obtain ⟨htokens, hillegals⟩ := Piece.eq_cut_of_scanned hjoined
  exact ⟨htokens.symm, hillegals.symm⟩

end ScriptLang
