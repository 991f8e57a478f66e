import Mathlib
import ScriptLang.Proofs.Execution.Ending
import ScriptLang.Proofs.Grammar.Extension
import ScriptLang.Proofs.Grammar.Placement
import ScriptLang.Proofs.Token.Seam
/-!
# One source after another

Two sources that are programs make up a program together, if a line break stands between them, and it does one
after the other. Nothing separates statements, so this rests on what the second source begins with: no statement
begins with anything that could go on with the last statement of the first.
-/

namespace ScriptLang

namespace Grammar

open Rule

/-! ### Statements behind statements -/

theorem ne_nil_of_not_atBlockEnd {tokens : List Token} {lines : Array Nat}
    (h : Cursor.atBlockEnd ⟨tokens, lines⟩ = false) : tokens ≠ [] := by
  rintro rfl
  cases h

section

variable {item : Rule Statement} (htakes : Takes item)

include htakes

/-- A bound on the number of statements that is no less than the number of tokens has no effect. -/
theorem statementsWithin_eq_of_le {bound bound' : Nat} {cursor : Cursor} (h : cursor.rest.length ≤ bound)
    (h' : cursor.rest.length ≤ bound') :
    statementsWithin item bound cursor = statementsWithin item bound' cursor := by
  induction bound generalizing bound' cursor with
  | zero =>
      have hend : cursor.atBlockEnd = true := by
        rw [Cursor.atBlockEnd, List.eq_nil_of_length_eq_zero (Nat.le_zero.mp h)]
      rw [statementsWithin_of_atBlockEnd hend, statementsWithin_of_atBlockEnd hend]
  | succ bound ih =>
      cases hend : cursor.atBlockEnd with
      | true => rw [statementsWithin_of_atBlockEnd hend, statementsWithin_of_atBlockEnd hend]
      | false =>
          have hne : cursor.rest ≠ [] := ne_nil_of_not_atBlockEnd hend
          have hpos := List.length_pos_iff.mpr hne
          have hshorter := htakes cursor hne
          obtain ⟨bound', rfl⟩ : ∃ less, bound' = less + 1 := ⟨bound' - 1, by omega⟩
          rw [statementsWithin_succ hend, statementsWithin_succ hend]
          cases hitem : item cursor with
          | ok first cursor' =>
              rw [hitem] at hshorter
              have hrest : cursor'.rest.length < cursor.rest.length := hshorter
              have hbody : statementsWithin item bound cursor' = statementsWithin item bound' cursor' :=
                ih (by omega) (by omega)
              show (statementsWithin item bound >>= _) cursor' = (statementsWithin item bound' >>= _) cursor'
              rw [bind_apply, bind_apply, hbody]
          | error => rfl

/-- Statements that were read to the end are followed by those that come next. -/
theorem statementsWithin_append (hitem : Extends Continuing item) {bound bound' : Nat} {tokens more : List Token}
    {lines lines' : Array Nat} {body body' : List Statement} {cursor : Cursor} (hends : Ends more)
    (hbound : tokens.length ≤ bound) (hbound' : (tokens ++ more).length ≤ bound')
    (h : statementsWithin item bound ⟨tokens, lines⟩ = .ok body ⟨[], lines'⟩)
    (hmore : statements item ⟨more, lines'⟩ = .ok body' cursor) :
    statementsWithin item bound' ⟨tokens ++ more, lines⟩ = .ok (body ++ body') cursor := by
  induction bound generalizing bound' tokens lines body with
  | zero =>
      obtain rfl := List.eq_nil_of_length_eq_zero (Nat.le_zero.mp hbound)
      cases h
      exact (statementsWithin_eq_of_le htakes hbound' (Nat.le_refl _)).trans hmore
  | succ bound ih =>
      cases hend : Cursor.atBlockEnd ⟨tokens, lines⟩ with
      | true =>
          rw [statementsWithin_of_atBlockEnd hend] at h
          cases h
          exact (statementsWithin_eq_of_le htakes hbound' (Nat.le_refl _)).trans hmore
      | false =>
          obtain ⟨token, tokens, rfl⟩ := List.exists_cons_of_ne_nil (ne_nil_of_not_atBlockEnd hend)
          have hend' : Cursor.atBlockEnd ⟨token :: tokens ++ more, lines⟩ = false := hend
          have hshorter := htakes ⟨token :: tokens, lines⟩ (List.cons_ne_nil _ _)
          rw [List.length_append, List.length_cons] at hbound'
          obtain ⟨bound', rfl⟩ : ∃ less, bound' = less + 1 := ⟨bound' - 1, by omega⟩
          rw [statementsWithin_succ hend] at h
          rw [statementsWithin_succ hend']
          cases hfirst : item ⟨token :: tokens, lines⟩ with
          | ok first between =>
              rw [hfirst] at h
              have hbetween : between.rest.length < tokens.length + 1 := by
                rw [hfirst] at hshorter
                exact hshorter
              obtain ⟨rest, _, hrest, hbody⟩ := bind_eq_ok.mp h
              cases hbody
              rw [hitem.ok_append hends hfirst]
              apply bind_eq_ok.mpr
              refine ⟨rest ++ body', cursor, ih ?_ ?_ hrest, rfl⟩
              · rw [List.length_cons] at hbound
                omega
              · rw [List.length_append]
                omega
          | error =>
              rw [hfirst] at h
              cases h

end

/-- A program is its statements, read to the end of the tokens. -/
theorem program_eq_ok_iff {cursor cursor' : Cursor} {result : Program} :
    program cursor = .ok result cursor' ↔
      statements (level (roomAt 1)).statement cursor = .ok result.statements cursor' ∧ cursor'.rest = [] := by
  constructor
  · intro h
    obtain ⟨body, between, hbody, hend⟩ := bind_eq_ok.mp h
    obtain ⟨⟨⟩, _, hatEnd, hresult⟩ := bind_eq_ok.mp hend
    obtain ⟨hrest, rfl⟩ := atEnd_eq_ok.mp hatEnd
    cases hresult
    exact ⟨hbody, hrest⟩
  · rintro ⟨hbody, hrest⟩
    rw [program, bind_of_ok hbody, bind_of_ok (atEnd_eq_ok.mpr ⟨hrest, rfl⟩)]
    rfl

/-- No statement begins with anything that goes on with another one, and so no program does. -/
theorem ends_of_program {tokens : List Token} {lines : Array Nat} {result : Program} {cursor : Cursor}
    (h : program ⟨tokens, lines⟩ = .ok result cursor) : Ends tokens := by
  have hends := (fits_of_program h).ends ends_nil
  rw [List.append_nil] at hends
  exact hends

theorem program_append {tokens more more' : List Token} {lines lines' : Array Nat} {first second : Program}
    {cursor cursor' : Cursor} (hfirst : program ⟨tokens, lines⟩ = .ok first cursor)
    (hsecond : program ⟨more, lines'⟩ = .ok second cursor') (halike : List.Forall₂ Token.Alike more more') :
    ∃ cursor'', program ⟨tokens ++ more', lines⟩ = .ok ⟨first.statements ++ second.statements⟩ cursor'' := by
  obtain ⟨hstatement, htakes, _⟩ := extends_level (roomAt 1)
  obtain ⟨hbody, hend⟩ := program_eq_ok_iff.mp hfirst
  obtain ⟨cursor'', hmore, _⟩ := (blind_program fun _ _ => id).ok halike hsecond cursor.closedLines
  have hends := ends_of_program hmore
  obtain ⟨hbody', hend'⟩ := program_eq_ok_iff.mp hmore
  obtain ⟨rest, closed⟩ := cursor
  cases hend
  refine ⟨cursor'', program_eq_ok_iff.mpr ⟨?_, hend'⟩⟩
  exact statementsWithin_append htakes hstatement hends (Nat.le_refl _) (Nat.le_refl _) hbody hbody'

end Grammar

/-! ### Sources -/

theorem forall₂_alike_shift (lines bytes : Nat) (tokens : List Token) :
    List.Forall₂ Token.Alike tokens (tokens.map (Token.shift lines bytes)) := by
  rw [List.forall₂_map_right_iff, List.forall₂_same]
  exact fun _ _ => ⟨rfl, rfl⟩

theorem withoutComments_map_shift (lines bytes : Nat) (tokens : List Token) :
    withoutComments (tokens.map (Token.shift lines bytes)) =
      (withoutComments tokens).map (Token.shift lines bytes) :=
  List.filter_map ..

theorem Program.ofSource_eq_ok_iff {source : String} {result : Program} :
    ofSource source = .ok result ↔
      illegalCharactersOf source = [] ∧ ofTokens (tokensOf source) = .ok result := by
  rw [ofSource, scan]
  cases illegalCharactersOf source with
  | nil =>
      dsimp only
      cases ofTokens (tokensOf source) with
      | ok => simp
      | error => simp
  | cons => simp

/-- Two programs, one after the other with a line break between them, are a program with the statements of both.
It does what the first does and then, unless that failed, what the second does from there. -/
theorem ofSource_append_newline {source more : String} {first second : Program}
    (hfirst : Program.ofSource source = .ok first) (hsecond : Program.ofSource more = .ok second) :
    ∃ joined, Program.ofSource (source ++ "\n" ++ more) = .ok joined ∧
      joined.statements = first.statements ++ second.statements ∧
      ∀ limit, joined.run limit = (first.run limit).andThen (execBlock limit second.statements) := by
  obtain ⟨hillegals, hfirst⟩ := Program.ofSource_eq_ok_iff.mp hfirst
  obtain ⟨hillegals', hsecond⟩ := Program.ofSource_eq_ok_iff.mp hsecond
  obtain ⟨cursor, hread⟩ := Program.ofTokens_eq_ok_iff.mp hfirst
  obtain ⟨cursor', hread'⟩ := Program.ofTokens_eq_ok_iff.mp hsecond
  obtain ⟨htokens, hnone⟩ := tokensOf_append_newline hillegals more
  rw [hillegals', List.map_nil] at hnone
  obtain ⟨cursor'', hjoined⟩ := Grammar.program_append hread hread' (forall₂_alike_shift _ _ _)
  rw [← withoutComments_map_shift, ← withoutComments_append, ← htokens] at hjoined
  refine ⟨⟨first.statements ++ second.statements⟩, ?_, rfl, ?_⟩
  · exact Program.ofSource_eq_ok_iff.mpr ⟨hnone, Program.ofTokens_eq_ok_iff.mpr ⟨cursor'', hjoined⟩⟩
  · intro limit
    exact execBlock_append limit first.statements second.statements State.empty

theorem ofSource_append_newline_comment :
    ∃ joined, Program.ofSource ("if x \x7b\x7d # done" ++ "\n" ++ "x = -1") = .ok joined ∧
      joined.statements = [.ifElse (.var "x") [] none, .assign "x" (.negate (.literal (.int 1)))] ∧
      ∀ limit, joined.run limit = (Program.run limit ⟨[.ifElse (.var "x") [] none]⟩).andThen
        (execBlock limit [.assign "x" (.negate (.literal (.int 1)))]) := by
  have hread : Program.ofSource "if x \x7b\x7d # done" = .ok ⟨[.ifElse (.var "x") [] none]⟩ ∧
      Program.ofSource "x = -1" = .ok ⟨[.assign "x" (.negate (.literal (.int 1)))]⟩ := by
    cbv
  exact ofSource_append_newline hread.1 hread.2

end ScriptLang
