import ScriptLang.Proofs.Grammar.Clauses
import ScriptLang.Proofs.Grammar.Extension
import ScriptLang.Proofs.Grammar.Nesting
/-!
# An `elseif` is a conditional in an `else`

An `elseif` sits one level below the conditional that it follows, and so does a conditional in the block of an `else`.
So the two can be exchanged wherever they stand, and the program stays the same or stays refused, also at the limit.

A clause is found by its keyword, which stands in no expression. Going through what is read from left to right, the
tokens in front of the place are kept, the alternative that begins there is exchanged as a whole, and the tokens behind
it are kept again.
-/

namespace ScriptLang

theorem withoutComments_cons {token : Token} (h : token.kind ≠ .comment) (tokens : List Token) :
    withoutComments (token :: tokens) = token :: withoutComments tokens :=
  List.filter_cons_of_pos (by simpa using h)

namespace Grammar

theorem FitsExpr.not_beginsClause {room : Nat} {tier : Tier} {tokens : List Token} {expr : Expr}
    (h : FitsExpr room tier tokens expr) : ∀ token ∈ tokens, ¬token.BeginsClause := by
  obtain ⟨_, hderives, _⟩ := h.derives
  exact fun token htoken hbegins => hderives.not_isClauseWord token htoken (.inr hbegins)

/-! ### The exchange of what stands behind a front -/

/-- The second tokens are the first ones, or `right` stands in them where `left` stands in the first at the end. -/
inductive Exchanged (left right : List Token) : List Token → List Token → Prop
  | same (tokens : List Token) : Exchanged left right tokens tokens
  | here : Exchanged left right left right
  | behind (token : Token) {tokens others : List Token} (h : Exchanged left right tokens others) :
      Exchanged left right (token :: tokens) (token :: others)

namespace Exchanged

variable {left right tokens others rest : List Token} {token : Token}

theorem append (front left right : List Token) : Exchanged left right (front ++ left) (front ++ right) := by
  induction front with
  | nil => exact .here
  | cons token front ih => exact .behind token ih

theorem cases_cons (h : Exchanged left right (token :: tokens) others) :
    left = token :: tokens ∧ others = right ∨
      ∃ others', others = token :: others' ∧ Exchanged left right tokens others' := by
  cases h with
  | same => exact .inr ⟨tokens, rfl, .same tokens⟩
  | here => exact .inl ⟨rfl, rfl⟩
  | behind _ h => exact .inr ⟨_, rfl, h⟩

section

-- The place of the exchange is known by the keyword there.
variable (hbegins : ¬NoClause left)

include hbegins

theorem eq_nil (h : Exchanged left right [] others) : others = [] := by
  cases h with
  | same => rfl
  | here => exact absurd blockEnds_nil.ends.noClause hbegins

theorem of_cons (hkind : ¬token.BeginsClause) (h : Exchanged left right (token :: tokens) others) :
    ∃ others', others = token :: others' ∧ Exchanged left right tokens others' := by
  rcases h.cases_cons with ⟨rfl, _⟩ | hkept
  · exact absurd (noClause_cons_iff.mpr hkind) hbegins
  · exact hkept

theorem of_append (hkinds : ∀ token ∈ tokens, ¬token.BeginsClause)
    (h : Exchanged left right (tokens ++ rest) others) :
    ∃ others', others = tokens ++ others' ∧ Exchanged left right rest others' := by
  induction tokens generalizing others with
  | nil => exact ⟨others, rfl, h⟩
  | cons token tokens ih =>
      obtain ⟨hkind, hkinds⟩ := List.forall_mem_cons.mp hkinds
      obtain ⟨others, rfl, hinside⟩ := h.of_cons hbegins hkind
      obtain ⟨others, rfl, hrest⟩ := ih hkinds hinside
      exact ⟨others, rfl, hrest⟩

end

end Exchanged

/-- Whatever alternative the first tokens begin with, the second begin with the same one, for which there is room
whenever there is for the first, and the same tokens follow. -/
structure SameAlternative (left right : List Token) : Prop where
  begins : ¬NoClause left
  fits {room : Nat} {tokens rest : List Token} {alternative : Option (List Statement)}
    (halternative : FitsAlternative room tokens alternative) (hne : tokens ≠ []) (hends : Ends rest)
    (heq : left = tokens ++ rest) : ∃ tokens', right = tokens' ++ rest ∧ FitsAlternative room tokens' alternative

-- By recursion on what fits. What is left over keeps track of whether the place has been passed.
mutual

theorem FitsStatement.exchange {left right : List Token} (hsame : SameAlternative left right) {room : Nat}
    {tokens rest others : List Token} {statement : Statement} (h : FitsStatement room tokens statement)
    (hends : Ends rest) (hexchanged : Exchanged left right (tokens ++ rest) others) :
    ∃ tokens' rest', others = tokens' ++ rest' ∧ FitsStatement room tokens' statement ∧
      Exchanged left right rest rest' := by
  match h with
  | @FitsStatement.assign _ name equals valueTokens _ hname hequals hvalue =>
      have hkinds : ∀ token ∈ name :: equals :: valueTokens, ¬token.BeginsClause := by
        simpa [Token.BeginsClause, hname, hequals] using hvalue.not_beginsClause
      obtain ⟨rest', rfl, hrest⟩ := hexchanged.of_append hsame.begins hkinds
      exact ⟨_, rest', rfl, .assign hname hequals hvalue, hrest⟩
  | @FitsStatement.print _ keyword opening closing valueTokens _ hkeyword hopening hvalue hclosing =>
      have hkinds : ∀ token ∈ keyword :: opening :: (valueTokens ++ [closing]), ¬token.BeginsClause := by
        simpa [Token.BeginsClause, hkeyword, hopening, hclosing, or_imp, forall_and] using
          hvalue.not_beginsClause
      obtain ⟨rest', rfl, hrest⟩ := hexchanged.of_append hsame.begins hkinds
      exact ⟨_, rest', rfl, .print hkeyword hopening hvalue hclosing, hrest⟩
  | .ifElse hkeyword hconditional =>
      obtain ⟨others, rfl, hinside⟩ := hexchanged.of_cons hsame.begins (by simp [Token.BeginsClause, hkeyword])
      obtain ⟨tokens', rest', rfl, hconditional', hrest⟩ := hconditional.exchange hsame hends hinside
      exact ⟨_, rest', List.cons_append.symm, .ifElse hkeyword hconditional', hrest⟩
  | @FitsStatement.whileLoop _ keyword conditionTokens _ _ _ hkeyword hcondition hbody =>
      rw [← List.cons_append, List.append_assoc] at hexchanged
      have hkinds : ∀ token ∈ keyword :: conditionTokens, ¬token.BeginsClause := by
        simpa [Token.BeginsClause, hkeyword] using hcondition.not_beginsClause
      obtain ⟨others, rfl, hinside⟩ := hexchanged.of_append hsame.begins hkinds
      obtain ⟨tokens', rest', rfl, hbody', hrest⟩ := hbody.exchange hsame hinside
      exact ⟨_, rest', by simp, .whileLoop hkeyword hcondition hbody', hrest⟩
  | @FitsStatement.forRange _ keyword name inside range opening number closing _ _ _ hkeyword hname hinside hrange
      hopening hnumber hcount hclosing hbody =>
      have hkinds : ∀ token ∈ [keyword, name, inside, range, opening, number, closing], ¬token.BeginsClause := by
        simp [Token.BeginsClause, hkeyword, hname, hinside, hrange, hopening, hnumber, hclosing]
      obtain ⟨others, rfl, hinside'⟩ := Exchanged.of_append hsame.begins hkinds hexchanged
      obtain ⟨tokens', rest', rfl, hbody', hrest⟩ := hbody.exchange hsame hinside'
      exact ⟨_, rest', by simp, .forRange hkeyword hname hinside hrange hopening hnumber hcount hclosing hbody', hrest⟩
termination_by structural h

theorem FitsConditional.exchange {left right : List Token} (hsame : SameAlternative left right) {room : Nat}
    {tokens rest others : List Token} {statement : Statement} (h : FitsConditional room tokens statement)
    (hends : Ends rest) (hexchanged : Exchanged left right (tokens ++ rest) others) :
    ∃ tokens' rest', others = tokens' ++ rest' ∧ FitsConditional room tokens' statement ∧
      Exchanged left right rest rest' := by
  match h with
  | .intro hcondition hbody halternative =>
      rw [List.append_assoc, List.append_assoc] at hexchanged
      obtain ⟨others, rfl, hinside⟩ := hexchanged.of_append hsame.begins hcondition.not_beginsClause
      obtain ⟨bodyTokens, others, rfl, hbody', hinside⟩ := hbody.exchange hsame hinside
      obtain ⟨tokens', rest', rfl, halternative', hrest⟩ := halternative.exchange hsame hends hinside
      exact ⟨_, rest', by simp, .intro hcondition hbody' halternative', hrest⟩
termination_by structural h

theorem FitsAlternative.exchange {left right : List Token} (hsame : SameAlternative left right) {room : Nat}
    {tokens rest others : List Token} {alternative : Option (List Statement)}
    (h : FitsAlternative room tokens alternative) (hends : Ends rest)
    (hexchanged : Exchanged left right (tokens ++ rest) others) :
    ∃ tokens' rest', others = tokens' ++ rest' ∧ FitsAlternative room tokens' alternative ∧
      Exchanged left right rest rest' := by
  match h with
  | .absent => exact ⟨[], others, rfl, .absent, hexchanged⟩
  | .elseIf hkeyword hconditional =>
      rcases hexchanged.cases_cons with ⟨heq, rfl⟩ | ⟨others, rfl, hinside⟩
      · obtain ⟨tokens', hright, hfits⟩ :=
          hsame.fits (.elseIf hkeyword hconditional) (List.cons_ne_nil _ _) hends heq
        exact ⟨tokens', rest, hright, hfits, .same rest⟩
      · obtain ⟨tokens', rest', rfl, hconditional', hrest⟩ := hconditional.exchange hsame hends hinside
        exact ⟨_, rest', List.cons_append.symm, .elseIf hkeyword hconditional', hrest⟩
  | .elseBlock hkeyword hbody =>
      rcases hexchanged.cases_cons with ⟨heq, rfl⟩ | ⟨others, rfl, hinside⟩
      · obtain ⟨tokens', hright, hfits⟩ := hsame.fits (.elseBlock hkeyword hbody) (List.cons_ne_nil _ _) hends heq
        exact ⟨tokens', rest, hright, hfits, .same rest⟩
      · obtain ⟨tokens', rest', rfl, hbody', hrest⟩ := hbody.exchange hsame hinside
        exact ⟨_, rest', List.cons_append.symm, .elseBlock hkeyword hbody', hrest⟩
termination_by structural h

theorem FitsBlock.exchange {left right : List Token} (hsame : SameAlternative left right) {room : Nat}
    {tokens rest others : List Token} {body : List Statement} (h : FitsBlock room tokens body)
    (hexchanged : Exchanged left right (tokens ++ rest) others) :
    ∃ tokens' rest', others = tokens' ++ rest' ∧ FitsBlock room tokens' body ∧ Exchanged left right rest rest' := by
  match h with
  | .intro hopening hbody hclosing =>
      rw [List.cons_append, List.append_assoc] at hexchanged
      obtain ⟨others, rfl, hinside⟩ := hexchanged.of_cons hsame.begins (by simp [Token.BeginsClause, hopening])
      obtain ⟨tokens', others, rfl, hbody', hinside⟩ :=
        hbody.exchange hsame (blockEnds_cons hclosing rest).ends hinside
      obtain ⟨rest', rfl, hrest⟩ := hinside.of_cons hsame.begins (by simp [Token.BeginsClause, hclosing])
      exact ⟨_, rest', by simp, .intro hopening hbody' hclosing, hrest⟩
termination_by structural h

theorem FitsStatements.exchange {left right : List Token} (hsame : SameAlternative left right) {room : Nat}
    {tokens rest others : List Token} {body : List Statement} (h : FitsStatements room tokens body)
    (hends : Ends rest) (hexchanged : Exchanged left right (tokens ++ rest) others) :
    ∃ tokens' rest', others = tokens' ++ rest' ∧ FitsStatements room tokens' body ∧
      Exchanged left right rest rest' := by
  match h with
  | .nil => exact ⟨[], others, rfl, .nil, hexchanged⟩
  | .cons hfirst hstatements =>
      rw [List.append_assoc] at hexchanged
      obtain ⟨firstTokens, others, rfl, hfirst', hinside⟩ :=
        hfirst.exchange hsame (hstatements.ends hends) hexchanged
      obtain ⟨tokens', rest', rfl, hstatements', hrest⟩ := hstatements.exchange hsame hends hinside
      exact ⟨_, rest', (List.append_assoc ..).symm, .cons hfirst' hstatements', hrest⟩
termination_by structural h

end

theorem SameAlternative.fitsStatements {left right front : List Token} {room : Nat} {body : List Statement}
    (hsame : SameAlternative left right) (h : FitsStatements room (front ++ left) body) :
    FitsStatements room (front ++ right) body := by
  have hexchanged := Exchanged.append front left right
  rw [← List.append_nil (front ++ left)] at hexchanged
  obtain ⟨tokens, rest, heq, hfits, hrest⟩ := h.exchange hsame ends_nil hexchanged
  rw [heq, hrest.eq_nil hsame.begins, List.append_nil]
  exact hfits

/-! ### The two ways to write the clause -/

theorem FitsStatement.conditional {room : Nat} {keyword : Token} {tokens : List Token} {statement : Statement}
    (h : FitsStatement room (keyword :: tokens) statement) (hkeyword : keyword.kind = .ifWord) :
    FitsConditional room tokens statement := by
  cases h with
  | ifElse _ hconditional => exact hconditional
  | assign hkind | print hkind | whileLoop hkind | forRange hkind =>
      rw [hkeyword] at hkind
      cases hkind

theorem FitsBlock.statements {room : Nat} {opening closing : Token} {block tokens : List Token}
    {body : List Statement} (h : FitsBlock room block body) (hblock : block = opening :: (tokens ++ [closing])) :
    FitsStatements room tokens body := by
  cases h with
  | intro _ hbody _ =>
      obtain ⟨rfl, _⟩ := List.append_inj' (List.cons.inj hblock).2 rfl
      exact hbody

/-- The tokens of one statement are not read as several. -/
theorem FitsStatements.eq_singleton {room : Nat} {tokens : List Token} {body : List Statement}
    {statement : Statement} {levels : Nat} (h : FitsStatements room tokens body)
    (hderives : DerivesStatement tokens statement levels) :
    ∃ first, body = [first] ∧ FitsStatement room tokens first := by
  cases h with
  | nil => cases hderives
  | @cons _ firstTokens more first statements hfirst hstatements =>
      obtain ⟨_, hfirst', _⟩ := hfirst.derives
      have hends : Ends more := by simpa using hstatements.ends ends_nil
      obtain ⟨_, rfl⟩ := hderives.append_inj hfirst' ends_nil hends (List.append_nil _)
      have hnone : statements = [] := List.eq_nil_of_length_eq_zero (Nat.le_zero.mp hstatements.length_le)
      rw [hnone, List.append_nil]
      exact ⟨first, rfl, hfirst⟩

section

variable {elseIf otherwise opening keyword closing : Token} {tokens rest : List Token} {statement : Statement}
  {levels : Nat} (helseIf : elseIf.kind = .elseifWord) (hotherwise : otherwise.kind = .elseWord)
  (hopening : opening.kind = .openBrace) (hkeyword : keyword.kind = .ifWord) (hclosing : closing.kind = .closeBrace)
  (hconditional : DerivesConditional tokens statement levels)

include helseIf hotherwise hopening hkeyword hclosing hconditional

theorem sameAlternative_elseIf (hrest : NoClause rest) :
    SameAlternative (elseIf :: (tokens ++ rest)) (otherwise :: opening :: keyword :: (tokens ++ closing :: rest)) where
  begins hnone := noClause_cons_iff.mp hnone (.inl helseIf)
  fits {room _ rest' _} halternative hne hends heq := by
    cases halternative with
    | absent => exact absurd rfl hne
    | @elseIf _ _ _ statement' _ hconditional' =>
        obtain ⟨_, hderives, _⟩ := hconditional'.derives
        obtain ⟨rfl, rfl⟩ := hconditional.append_inj hderives hrest hends.noClause (List.cons.inj heq).2
        have hblock : FitsBlock room (opening :: (keyword :: tokens ++ [] ++ [closing])) [statement'] :=
          .intro hopening (.cons (.ifElse hkeyword hconditional') .nil) hclosing
        exact ⟨_, by simp, .elseBlock hotherwise hblock⟩
    | elseBlock hword =>
        rw [← (List.cons.inj heq).1, helseIf] at hword
        cases hword

theorem sameAlternative_else :
    SameAlternative (otherwise :: opening :: keyword :: (tokens ++ closing :: rest)) (elseIf :: (tokens ++ rest)) where
  begins hnone := noClause_cons_iff.mp hnone (.inr hotherwise)
  fits {room _ rest' _} halternative hne hends heq := by
    cases halternative with
    | absent => exact absurd rfl hne
    | elseIf hword =>
        rw [← (List.cons.inj heq).1, hotherwise] at hword
        cases hword
    | elseBlock _ hblock =>
        have hstatement : DerivesStatement (keyword :: tokens) statement levels := .ifElse hkeyword hconditional
        have hnested : DerivesBlock (opening :: (keyword :: tokens ++ [] ++ [closing])) [statement] _ :=
          .intro hopening (.cons hstatement .nil) hclosing
        rw [List.append_nil] at hnested
        obtain ⟨_, hderives, _⟩ := hblock.derives
        obtain ⟨htokens, rfl⟩ := hnested.append_inj hderives (by simpa using (List.cons.inj heq).2)
        obtain ⟨first, rfl, hfirst⟩ := (hblock.statements htokens.symm).eq_singleton hstatement
        exact ⟨_, List.cons_append.symm, .elseIf helseIf (hfirst.conditional hkeyword)⟩

end

/-- An `elseif` with its condition, its block and the clauses behind it means the same as an `else` with the conditional
of all these in its block. Whatever stands around it, every program is read from both or from neither. -/
theorem ofTokens_elseIf_iff_nested {elseIf otherwise outerOpening keyword opening closing outerClosing : Token}
    (helseIf : elseIf.kind = .elseifWord) (hotherwise : otherwise.kind = .elseWord)
    (houterOpening : outerOpening.kind = .openBrace) (hkeyword : keyword.kind = .ifWord)
    (hopening : opening.kind = .openBrace) (hclosing : closing.kind = .closeBrace)
    (houterClosing : outerClosing.kind = .closeBrace)
    {conditionTokens bodyTokens clauseTokens after : List Token} {condition : Expr} {body : List Statement}
    {clauses : List Clause} {last : Option (List Statement)} {conditionLevels bodyLevels : Nat}
    (hcondition : DerivesExpr .comparison (withoutComments conditionTokens) condition conditionLevels)
    (hbody : DerivesStatements (withoutComments bodyTokens) body bodyLevels)
    (hclauses : DerivesClauses (withoutComments clauseTokens) clauses last)
    (hafter : NoClause (withoutComments after)) (before : List Token) (program : Program) :
    let conditional := conditionTokens ++ opening :: (bodyTokens ++ closing :: clauseTokens)
    Program.ofTokens (before ++ elseIf :: (conditional ++ after)) = .ok program ↔
      Program.ofTokens (before ++ otherwise :: outerOpening :: keyword :: (conditional ++ outerClosing :: after)) =
        .ok program := by
  intro conditional
  obtain ⟨_, halternative⟩ := hclauses.derivesAlternative
  have hconditional := DerivesConditional.intro hcondition (.intro hopening hbody hclosing) halternative
  have htokens : withoutComments conditional = withoutComments conditionTokens ++
      (opening :: (withoutComments bodyTokens ++ [closing]) ++ withoutComments clauseTokens) := by
    simp [conditional, withoutComments_append, withoutComments_cons, hopening, hclosing]
  rw [← htokens] at hconditional
  have hleft : withoutComments (before ++ elseIf :: (conditional ++ after)) =
      withoutComments before ++ elseIf :: (withoutComments conditional ++ withoutComments after) := by
    simp [withoutComments_append, withoutComments_cons, helseIf]
  have hright :
      withoutComments (before ++ otherwise :: outerOpening :: keyword :: (conditional ++ outerClosing :: after)) =
        withoutComments before ++ otherwise :: outerOpening :: keyword ::
          (withoutComments conditional ++ outerClosing :: withoutComments after) := by
    simp [withoutComments_append, withoutComments_cons, hotherwise, houterOpening, hkeyword, houterClosing]
  rw [ofTokens_eq_ok_iff_fits, ofTokens_eq_ok_iff_fits, hleft, hright]
  constructor
  · exact (sameAlternative_elseIf helseIf hotherwise houterOpening hkeyword houterClosing hconditional
      hafter).fitsStatements
  · exact (sameAlternative_else helseIf hotherwise houterOpening hkeyword houterClosing hconditional).fitsStatements

/-- With comments around the clauses and a statement behind them. -/
theorem ofTokens_elseIf_iff_nested_before_print :
    let truth := tokenOf .boolean "true"
    let opening := tokenOf .openBrace "\x7b"
    let closing := tokenOf .closeBrace "\x7d"
    let comment := tokenOf .comment "#"
    let before := [tokenOf .ifWord "if", truth, opening, closing, comment]
    let conditional := [truth, opening, comment, closing, comment, tokenOf .elseWord "else", opening, closing]
    let after := [comment, tokenOf .printWord "print", tokenOf .openParen "(", truth, tokenOf .closeParen ")"]
    Program.ofTokens (before ++ tokenOf .elseWord "else" :: opening :: tokenOf .ifWord "if" ::
        (conditional ++ closing :: after)) =
      .ok ⟨[.ifElse (.literal (.bool true)) [] (some [.ifElse (.literal (.bool true)) [] (some [])]),
        .print (.literal (.bool true))]⟩ := by
  intro truth opening closing comment before conditional after
  have hread : Program.ofTokens (before ++ tokenOf .elseifWord "elseif" :: (conditional ++ after)) =
      .ok ⟨[.ifElse (.literal (.bool true)) [] (some [.ifElse (.literal (.bool true)) [] (some [])]),
        .print (.literal (.bool true))]⟩ := rfl
  have hcondition : DerivesExpr .comparison (withoutComments [truth]) (.literal (.bool true)) 1 :=
    .single (.single (.single (.boolean rfl)))
  have hbody : DerivesStatements (withoutComments [comment]) [] 0 := .nil
  have hclauses : DerivesClauses (withoutComments [comment, tokenOf .elseWord "else", opening, closing]) [] (some []) :=
    .intro .nil (.block rfl (.intro rfl .nil rfl))
  have hafter : NoClause (withoutComments after) := by
    simp [after, comment, withoutComments, tokenOf, NoClause, Token.BeginsClause]
  refine (ofTokens_elseIf_iff_nested ?_ ?_ ?_ ?_ ?_ ?_ ?_ hcondition hbody hclauses hafter before _).mp hread <;> rfl

end Grammar

end ScriptLang
