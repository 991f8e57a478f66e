import ScriptLang.Proofs.Grammar.Counting
/-!
# Every token is accounted for

A descent has no bound of its own, yet it comes to an end on any list of tokens, at any depth. The tokens that are left
are the end of those that were there. A phrase that was read has taken at least one of them, and a program that was
read has taken all. A failure blames a token that was taken, or there is none left.

That a descent ends, and with what, was shown by comparing it with a rule. What a rule has taken is known from what it
reads, and whom it blames from what it is accountable for.
-/

namespace ScriptLang.Grammar

open Rule

/-! ### Tokens of phrases -/

theorem FitsExpr.ne_nil {room : Nat} {tier : Tier} {tokens : List Token} {expr : Expr}
    (h : FitsExpr room tier tokens expr) : tokens ≠ [] := by
  induction h with
  | single _ ih => exact ih
  | _ => simp

theorem FitsBlock.ne_nil {room : Nat} {tokens : List Token} {body : List Statement} (h : FitsBlock room tokens body) :
    tokens ≠ [] := by
  cases h with
  | intro => exact List.cons_ne_nil _ _

/-- No statement is a single token. -/
theorem FitsStatement.tail_ne_nil {room : Nat} {first : Token} {tokens : List Token} {statement : Statement}
    (h : FitsStatement room (first :: tokens) statement) : tokens ≠ [] := by
  cases h with
  | assign | print | forRange => exact List.cons_ne_nil _ _
  | ifElse _ hconditional =>
      cases hconditional with
      | intro hcondition => exact List.append_ne_nil_of_left_ne_nil hcondition.ne_nil _
  | whileLoop _ hcondition => exact List.append_ne_nil_of_left_ne_nil hcondition.ne_nil _

namespace Phrase

variable {α : Type}

theorem reads (phrase : Phrase α) (room : Nat) : Reads (phrase.rule room) fun taken _ => taken ≠ [] := by
  cases phrase with
  | primary =>
      cases room with
      | zero => exact reads_tooDeep
      | succ room => exact (reads_primary (reads_expr_fits room)).mono fun _ _ hfits => hfits.ne_nil
  | expr tier => exact (reads_expr_fits room tier).mono fun _ _ hfits => hfits.ne_nil
  | statement =>
      apply (reads_level_fits room).1.mono
      intro taken result hfits
      obtain ⟨first, rest, rfl, _⟩ := hfits.exists_first
      exact List.cons_ne_nil first rest
  | block => exact (reads_block (reads_level_fits room).1).mono fun _ _ hfits => hfits.ne_nil

theorem accountable (phrase : Phrase α) (room : Nat) : Accountable [] (phrase.rule room) := by
  cases phrase with
  | primary =>
      cases room with
      | zero => exact accountable_tooDeep
      | succ room => exact accountable_primary (accountable_expr room)
  | expr tier => exact accountable_expr room tier
  | statement => exact (accountable_level room).1
  | block => exact accountable_block (reads_level_fits room).1 (accountable_level room).1

end Phrase

theorem rest_of_program {cursor cursor' : Cursor} {result : Program} (h : program cursor = .ok result cursor') :
    cursor'.rest = [] := by
  obtain ⟨body, between, _, hend⟩ := bind_eq_ok.mp h
  obtain ⟨⟨⟩, _, hatEnd, hresult⟩ := bind_eq_ok.mp hend
  obtain ⟨hrest, rfl⟩ := atEnd_eq_ok.mp hatEnd
  cases hresult
  exact hrest

/-! ### Answers of descents -/

namespace Descent

variable {α : Type}

/-- The descent has ended. What it has taken stood in front of what is left. After a success both are as they should
be, and an error blames a token that was taken, now or earlier, unless none is left. -/
inductive Accounted (earlier : List Token) (cursor : Cursor) (complete : List Token → List Token → Prop) :
    Option (Except Failure α × Cursor) → Prop
  | success {value : α} {cursor' : Cursor} (taken : List Token) (htaken : cursor.rest = taken ++ cursor'.rest)
      (hcomplete : complete taken cursor'.rest) : Accounted earlier cursor complete (some (.ok value, cursor'))
  | failure {error : SyntaxError} {cursor' : Cursor} (taken : List Token) (htaken : cursor.rest = taken ++ cursor'.rest)
      (hblames : error.Blames (earlier ++ taken) cursor'.rest) :
      Accounted earlier cursor complete (some (.error (.malformed error), cursor'))

variable {rule : Rule α} {earlier : List Token} {complete : List Token → List Token → Prop}

theorem accounted_ofRule (haccountable : Accountable earlier rule) {cursor : Cursor}
    (hcomplete : ∀ value cursor', rule cursor = .ok value cursor' →
      ∃ taken, cursor.rest = taken ++ cursor'.rest ∧ complete taken cursor'.rest) :
    Accounted earlier cursor complete (ofRule rule cursor) := by
  cases hrule : rule cursor with
  | ok value cursor' =>
      obtain ⟨taken, htaken, hcondition⟩ := hcomplete value cursor' hrule
      rw [ofRule_of_ok hrule]
      exact .success taken htaken hcondition
  | error error cursor' =>
      obtain ⟨taken, htaken, hblames⟩ := haccountable hrule
      rw [ofRule_of_error hrule]
      exact .failure taken htaken hblames

/-- A rule that reads something. -/
theorem accounted_of_reads (haccountable : Accountable earlier rule) (hreads : Reads rule fun taken _ => taken ≠ [])
    (cursor : Cursor) : Accounted earlier cursor (fun taken _ => taken ≠ []) (ofRule rule cursor) :=
  accounted_ofRule haccountable fun _ _ h => hreads h

end Descent

open Descent Arithmetic

/-- What follows the first token of a statement, at any depth and without a check before it. -/
theorem descend_afterFirst_natural (depth : Nat) (first : Token) :
    natural.descend (.afterFirst depth first) =
      ofRule (afterFirst (roomAt (depth + 1)) (level (roomAt (depth + 1))) first) := by
  have hexact : natural.ExactTo (depth + (levelLimit + 2)) := exactTo_natural (Nat.le_add_left _ _)
  obtain ⟨hstatements, hclauses⟩ := agree hexact (roomAt (depth + 1))
  exact descend_afterFirst hexact hstatements hclauses (Nat.add_le_add_left (by decide) depth) rfl first

/-- Reading ends on any tokens and at any depth, as the rules do, and accounts for every token: it takes them from the
front, at least one of them for a phrase and all but the comments for a program, and blames only what it has taken,
unless nothing is left. -/
theorem reading_accounts_for_tokens :
    (∀ (α : Type) (phrase : Phrase α) (depth : Nat),
      phrase.descent natural depth = ofRule (phrase.rule (roomAt depth)) ∧
      ∀ cursor, Accounted [] cursor (fun taken _ => taken ≠ []) (phrase.descent natural depth cursor)) ∧
    (∀ (depth : Nat) (first : Token) (cursor : Cursor),
      Accounted [first] cursor (fun taken _ => taken ≠ []) (natural.descend (.afterFirst depth first) cursor)) ∧
    natural.programAt = ofRule program ∧
    ∀ tokens : List Token, Accounted [] (Cursor.start (withoutComments tokens)) (fun _ rest => rest = [])
      (natural.programAt (Cursor.start (withoutComments tokens))) := by
  have hexact : natural.ExactTo (levelLimit + 2) := exactTo_natural (Nat.le_refl _)
  have hprogram := programAt_eq hexact
  refine ⟨?_, ?_, hprogram, ?_⟩
  · intro α phrase depth
    have hdescent : phrase.descent natural depth = ofRule (phrase.rule (roomAt depth)) :=
      descent_eq_ofRule hexact phrase depth
    refine ⟨hdescent, fun cursor => ?_⟩
    rw [hdescent]
    exact accounted_of_reads (phrase.accountable _) (phrase.reads _) cursor
  · intro depth first cursor
    have hlevel := accountable_level (roomAt (depth + 1))
    have hfits := reads_level_fits (roomAt (depth + 1))
    rw [descend_afterFirst_natural]
    apply accounted_of_reads (accountable_afterFirst hlevel.1 hlevel.2 first)
    exact (reads_afterFirst hfits.1 hfits.2 first).mono fun _ _ hstatement => hstatement.tail_ne_nil
  · intro tokens
    rw [hprogram]
    apply accounted_ofRule accountable_program
    intro result cursor' h
    have hrest := rest_of_program h
    exact ⟨withoutComments tokens, by rw [hrest, List.append_nil]; rfl, hrest⟩

end ScriptLang.Grammar
