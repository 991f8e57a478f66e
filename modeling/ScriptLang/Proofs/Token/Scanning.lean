import ScriptLang.Proofs.Token.Munch
/-!
# Scanning takes the longest token everywhere

`Scanned` says how a text is scanned in terms of the declared rules alone: blanks are skipped, the longest
token is taken, and a character at which no rule admits anything is illegal on its own. It leaves no choice,
and cutting a source into pieces is the one way to follow it.
-/

namespace ScriptLang

/-- From this place on, the text has these tokens and these illegal characters. -/
inductive Scanned : Position → List Char → List Token → List IllegalCharacter → Prop
  | done {position : Position} : Scanned position [] [] []
  | blank {position : Position} {char : Char} {rest : List Char} {tokens : List Token}
      {illegals : List IllegalCharacter} (hblank : char ∈ [' ', '\t', '\r', '\n'])
      (hrest : Scanned (position.advance char) rest tokens illegals) :
      Scanned position (char :: rest) tokens illegals
  | token {position : Position} {kind : Kind} {taken rest : List Char} {tokens : List Token}
      {illegals : List IllegalCharacter} (hblank : ∀ char ∈ taken.head?, char ∉ [' ', '\t', '\r', '\n'])
      (hmunch : Munch (taken ++ rest) kind taken)
      (hrest : Scanned (position.after taken) rest tokens illegals) :
      Scanned position (taken ++ rest) (⟨kind, String.ofList taken, position⟩ :: tokens) illegals
  | illegal {position : Position} {char : Char} {rest : List Char} {tokens : List Token}
      {illegals : List IllegalCharacter} (hblank : char ∉ [' ', '\t', '\r', '\n'])
      (hnone : ∀ (kind : Kind) (chars : List Char), kind.Admits chars → ¬chars <+: char :: rest)
      (hrest : Scanned (position.advance char) rest tokens illegals) :
      Scanned position (char :: rest) tokens (⟨char, position⟩ :: illegals)

theorem Piece.isBlank_iff {char : Char} : isBlank char = true ↔ char ∈ [' ', '\t', '\r', '\n'] := by
  simp [isBlank, or_assoc]

/-- No token begins with a blank. -/
theorem Lexeme.not_blank_of_admits {kind : Kind} {chars : List Char} (h : kind.Admits chars) :
    ∀ char ∈ chars.head?, char ∉ [' ', '\t', '\r', '\n'] := by
  cases h with
  | @fixed kind fixed hrule =>
      have hall : ∀ rule ∈ Kind.fixedRules, rule.2.toList.head?.any isBlank = false := by decide
      intro char hchar hblank
      have hfirst := hall (kind, fixed) hrule
      rw [Option.mem_def.mp hchar, Option.any_some, Piece.isBlank_iff.mpr hblank] at hfirst
      cases hfirst
  | comment hmatches =>
      obtain ⟨rest, rfl, _⟩ := Pattern.matches_comment_iff.mp hmatches
      rintro char ⟨⟩
      decide
  | number hmatches =>
      obtain ⟨whole, ⟨hne, hwhole⟩, hchars⟩ := Pattern.matches_number_iff.mp hmatches
      obtain ⟨first, more, rfl⟩ := List.exists_cons_of_ne_nil hne
      have hall : ∀ char ∈ [' ', '\t', '\r', '\n'], ¬char.isDigit = true := List.any_eq_false.mp rfl
      have hfirst : first ∉ [' ', '\t', '\r', '\n'] := fun hblank =>
        hall first hblank (hwhole first List.mem_cons_self)
      rcases hchars with rfl | ⟨fraction, _, rfl⟩ <;>
      · rintro char ⟨⟩
        exact hfirst
  | string hmatches =>
      obtain ⟨inner, rfl, _⟩ := Pattern.matches_string_iff.mp hmatches
      rintro char ⟨⟩
      decide
  | identifier hmatches =>
      obtain ⟨first, rest, rfl, hfirst, _⟩ := Pattern.matches_identifier_iff.mp hmatches
      rintro char ⟨⟩ hblank
      have hall : ∀ char ∈ [' ', '\t', '\r', '\n'], ¬isWordStart char = true := List.any_eq_false.mp rfl
      exact hall first hblank hfirst

namespace Piece

/-! ### One step of cutting -/

theorem cut_blank {char : Char} (h : char ∈ [' ', '\t', '\r', '\n']) (position : Position) (rest : List Char) :
    cut position (char :: rest) = .blank char :: cut (position.advance char) rest := by
  rw [cut, if_pos (isBlank_iff.mpr h)]

theorem cut_token {taken rest : List Char} {kind : Kind}
    (hblank : ∀ char ∈ taken.head?, char ∉ [' ', '\t', '\r', '\n'])
    (hmunch : Munch (taken ++ rest) kind taken) (position : Position) :
    cut position (taken ++ rest) =
      .token ⟨kind, String.ofList taken, position⟩ :: cut (position.after taken) rest := by
  have hfound := Lexeme.atFront?_of_munch hmunch
  obtain ⟨first, more, rfl⟩ := List.exists_cons_of_ne_nil hmunch.nonempty
  rw [List.cons_append] at hfound ⊢
  rw [cut, if_neg (mt isBlank_iff.mp (hblank first rfl)), hfound]
  simp

theorem cut_illegal {char : Char} {rest : List Char} (hblank : char ∉ [' ', '\t', '\r', '\n'])
    (hnone : ∀ (kind : Kind) (chars : List Char), kind.Admits chars → ¬chars <+: char :: rest)
    (position : Position) :
    cut position (char :: rest) = .illegal ⟨char, position⟩ :: cut (position.advance char) rest := by
  rw [cut, if_neg (mt isBlank_iff.mp hblank), Lexeme.atFront?_eq_none_iff.mpr hnone]

/-! ### The whole text -/

theorem scanned_cut (position : Position) (text : List Char) :
    Scanned position text ((cut position text).filterMap token?) ((cut position text).filterMap illegal?) := by
  induction hlength : text.length using Nat.strong_induction_on generalizing position text with
  | _ length ih =>
      cases text with
      | nil =>
          rw [cut]
          exact .done
      | cons first rest =>
          subst hlength
          by_cases hblank : first ∈ [' ', '\t', '\r', '\n']
          · rw [cut_blank hblank]
            exact .blank hblank (ih _ (Nat.lt_succ_self _) _ rest rfl)
          · cases hfound : Lexeme.atFront? (first :: rest) with
            | none =>
                have hnone := Lexeme.atFront?_eq_none_iff.mp hfound
                rw [cut_illegal hblank hnone]
                exact .illegal hblank hnone (ih _ (Nat.lt_succ_self _) _ rest rfl)
            | some lexeme =>
                have hmunch := Lexeme.munch_of_atFront? hfound
                obtain ⟨more, hmore⟩ := hmunch.front
                have hhead := Lexeme.not_blank_of_admits hmunch.admitted
                have hshorter : more.length < (first :: rest).length := by
                  have hpos := List.length_pos_iff.mpr hmunch.nonempty
                  rw [← hmore, List.length_append]
                  omega
                rw [← hmore] at hmunch ⊢
                rw [cut_token hhead hmunch]
                exact .token hhead hmunch (ih _ hshorter _ more rfl)

theorem eq_cut_of_scanned {position : Position} {text : List Char} {tokens : List Token}
    {illegals : List IllegalCharacter} (h : Scanned position text tokens illegals) :
    tokens = (cut position text).filterMap token? ∧ illegals = (cut position text).filterMap illegal? := by
  induction h with
  | done =>
      rw [cut]
      exact ⟨rfl, rfl⟩
  | blank hblank _ ih =>
      rw [cut_blank hblank]
      exact ih
  | token hblank hmunch _ ih =>
      rw [cut_token hblank hmunch]
      exact ⟨congrArg (List.cons _) ih.1, ih.2⟩
  | illegal hblank hnone _ ih =>
      rw [cut_illegal hblank hnone]
      exact ⟨ih.1, congrArg (List.cons _) ih.2⟩

end Piece

/-- Every token is the longest one somewhere in the text. -/
theorem Scanned.exists_munch {position : Position} {text : List Char} {tokens : List Token}
    {illegals : List IllegalCharacter} (h : Scanned position text tokens illegals) :
    ∀ token ∈ tokens, ∃ rest, Munch rest token.kind token.text.toList := by
  induction h with
  | done => simp
  | blank _ _ ih => exact ih
  | token _ hmunch _ ih =>
      rw [List.forall_mem_cons]
      refine ⟨?_, ih⟩
      rw [String.toList_ofList]
      exact ⟨_, hmunch⟩
  | illegal _ _ _ ih => exact ih

/-- The tokens and the illegal characters of a source are what scanning by the rules gives, and nothing
else. -/
theorem scanned_iff_tokensOf (source : String) (tokens : List Token) (illegals : List IllegalCharacter) :
    Scanned Position.start source.toList tokens illegals ↔
      tokens = tokensOf source ∧ illegals = illegalCharactersOf source := by
  constructor
  · exact Piece.eq_cut_of_scanned
  · rintro ⟨rfl, rfl⟩
    exact Piece.scanned_cut Position.start source.toList

end ScriptLang
