import ScriptLang.Proofs.Grammar.Extension
/-!
# A syntax error is final

Nothing that follows can mend tokens that were rejected, unless they only broke off too early. A refused token is
found at the first place where it can be: the tokens up to it are rejected whatever comes behind, and the tokens
in front of it are not rejected for anything but their end.
-/

namespace ScriptLang

/-- The tokens are a program, or all that is wrong with them is that they break off. -/
def Program.Faultless (tokens : List Token) : Prop :=
  (∃ result, ofTokens tokens = .ok result) ∨ ofTokens tokens = .error .endOfInput

/-- Reading fails at the token with this index among the tokens that are no comments. It has taken this token and
none behind it. -/
def Program.RefusedAt (tokens : List Token) (index : Nat) (token : Token) : Prop :=
  (withoutComments tokens)[index]? = some token ∧
    ∃ lines, readTokens tokens = .error (.unexpectedToken token) ⟨(withoutComments tokens).drop (index + 1), lines⟩

theorem withoutComments_take (tokens : List Token) (count : Nat) :
    withoutComments ((withoutComments tokens).take count) = (withoutComments tokens).take count := by
  apply List.filter_eq_self.mpr
  intro token htoken
  exact (List.mem_filter.mp (List.mem_of_mem_take htoken)).2

namespace Grammar

open Rule

/-- A refusal does not depend on what follows the refused token. -/
theorem program_append_refused_iff (front after : List Token) {token : Token} {lines lines' : Array Nat} :
    program ⟨front ++ after, lines⟩ = .error (.unexpectedToken token) ⟨after, lines'⟩ ↔
      program ⟨front, lines⟩ = .error (.unexpectedToken token) ⟨[], lines'⟩ := by
  by_cases hafter : after = []
  · rw [hafter, List.append_nil]
  · have hprolonged := extends_program.prolonged front after lines hafter
    generalize program ⟨front, lines⟩ = answer at hprolonged ⊢
    generalize program ⟨front ++ after, lines⟩ = longer at hprolonged ⊢
    constructor
    · rintro rfl
      -- In the other cases a token behind the refused one would have been taken.
      generalize hlonger : EStateM.Result.error _ _ = longer at hprolonged
      cases hprolonged with
      | ok => cases hlonger
      | error =>
          simp only [EStateM.Result.error.injEq, Cursor.mk.injEq, List.self_eq_append_left] at hlonger
          obtain ⟨rfl, rfl, rfl⟩ := hlonger
          rfl
      | starved h =>
          subst hlonger
          exact absurd h (Nat.lt_irrefl _)
      | opened h =>
          subst hlonger
          exact absurd h (Nat.lt_irrefl _)
      | deep h =>
          subst hlonger
          exact absurd h.1 (Nat.lt_irrefl _)
    · rintro rfl
      cases hprolonged with
      | error => rfl

end Grammar

namespace Program

open Grammar Rule

theorem faultless_of_append {tokens more : List Token} {result : Program}
    (h : ofTokens (tokens ++ more) = .ok result) : Faultless tokens := by
  by_cases hmore : withoutComments more = []
  · left
    refine ⟨result, ?_⟩
    rw [← h, ofTokens, ofTokens, readTokens, readTokens, withoutComments_append, hmore, List.append_nil]
  · have hprolonged := extends_program.prolonged (withoutComments tokens) (withoutComments more) #[] hmore
    rw [← withoutComments_append] at hprolonged
    rw [ofTokens, readTokens, Cursor.start] at h
    unfold Faultless
    rw [ofTokens, readTokens, Cursor.start]
    generalize program ⟨withoutComments tokens, #[]⟩ = answer at hprolonged ⊢
    generalize program ⟨withoutComments (tokens ++ more), #[]⟩ = longer at hprolonged h
    cases hprolonged with
    | ok => exact .inl ⟨_, rfl⟩
    | error => cases h
    | starved => exact .inr rfl
    | opened => exact .inl ⟨_, rfl⟩
    | deep hpast =>
        cases longer with
        | ok => exact hpast.2.elim
        | error => cases h

theorem exists_refusedAt {tokens : List Token} {token : Token}
    (h : ofTokens tokens = .error (.unexpectedToken token)) : ∃ index, RefusedAt tokens index token := by
  obtain ⟨cursor, hread⟩ := ofTokens_eq_error_iff.mp h
  obtain ⟨before, hbefore⟩ := exists_taken_of_refused accountable_program hread
  have hkept : withoutComments tokens = before ++ token :: cursor.rest := hbefore
  refine ⟨before.length, ?_, cursor.closedLines, ?_⟩
  · rw [hkept]
    simp
  · rw [hread, hkept]
    simp

/-- The tokens in front of a refused one are not rejected for anything but their end. -/
theorem faultless_before {before : List Token} {token : Token} {lines' : Array Nat}
    (hbefore : withoutComments before = before)
    (h : program ⟨before ++ [token], #[]⟩ = .error (.unexpectedToken token) ⟨[], lines'⟩) : Faultless before := by
  have hprolonged := extends_program.prolonged before [token] #[] (List.cons_ne_nil _ _)
  unfold Faultless
  rw [ofTokens, readTokens, hbefore, Cursor.start]
  rw [h] at hprolonged
  generalize program ⟨before, #[]⟩ = answer at hprolonged ⊢
  generalize hlonger : EStateM.Result.error _ _ = longer at hprolonged
  cases hprolonged with
  | ok => exact .inl ⟨_, rfl⟩
  | error => simp at hlonger
  | starved => exact .inr rfl
  | opened => exact .inl ⟨_, rfl⟩
  | deep hpast =>
      subst hlonger
      exact absurd (hpast.2 token rfl) (Nat.lt_irrefl _)

/-- Syntax errors are final, and a token is refused at the earliest. If tokens with more behind them are a program,
they are faultless themselves. A refused token has an index; the tokens up to it are refused in the same way
whatever follows, and those in front of it are faultless. -/
theorem ofTokens_error_final (tokens : List Token) :
    (∀ more result, ofTokens (tokens ++ more) = .ok result → Faultless tokens) ∧
    (∀ token, ofTokens tokens = .error (.unexpectedToken token) → ∃ index, RefusedAt tokens index token) ∧
    ∀ index token, RefusedAt tokens index token →
      (∀ others, (withoutComments others).take (index + 1) = (withoutComments tokens).take (index + 1) →
        ofTokens others = .error (.unexpectedToken token)) ∧
      Faultless ((withoutComments tokens).take index) := by
  refine ⟨fun more result => faultless_of_append, fun token => exists_refusedAt, ?_⟩
  rintro index token ⟨htoken, lines, hread⟩
  have hrefused : program ⟨(withoutComments tokens).take (index + 1), #[]⟩ =
      .error (.unexpectedToken token) ⟨[], lines⟩ := by
    apply (program_append_refused_iff _ ((withoutComments tokens).drop (index + 1))).mp
    rw [List.take_append_drop]
    exact hread
  constructor
  · intro others hothers
    rw [← hothers] at hrefused
    have hlonger := (program_append_refused_iff _ ((withoutComments others).drop (index + 1))).mpr hrefused
    rw [List.take_append_drop] at hlonger
    exact ofTokens_eq_error_iff.mpr ⟨_, hlonger⟩
  · rw [List.take_add_one, htoken] at hrefused
    exact faultless_before (withoutComments_take tokens index) hrefused

theorem ofTokens_error_final_closeParen :
    let name : Token := ⟨.identifier, "x", ⟨1, 1, 0⟩⟩
    let equals : Token := ⟨.assign, "=", ⟨1, 3, 2⟩⟩
    let closing : Token := ⟨.closeParen, ")", ⟨1, 5, 4⟩⟩
    RefusedAt [name, equals, closing] 2 closing ∧
      ofTokens [name, equals, closing, name] = .error (.unexpectedToken closing) ∧ Faultless [name, equals] := by
  intro name equals closing
  have hrefused : RefusedAt [name, equals, closing] 2 closing := ⟨rfl, #[], rfl⟩
  obtain ⟨hothers, hbefore⟩ := (ofTokens_error_final [name, equals, closing]).2.2 2 closing hrefused
  exact ⟨hrefused, hothers _ rfl, hbefore⟩

end Program

end ScriptLang
