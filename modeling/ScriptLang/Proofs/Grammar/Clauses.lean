import Mathlib.Data.List.Forall2
import ScriptLang.Proofs.Grammar.Unambiguity
/-!
# The clauses of a conditional

A source writes a conditional as a row of clauses: `if` with a condition and a block, any number of `elseif` with
theirs, and perhaps `else` with a last block. The grammar nests them instead, each clause in the alternative of the one
before. Here the row is told as it stands in the source, and the two ways to tell it are the same.
-/

namespace ScriptLang

/-- A condition and the block that belongs to it. -/
structure Clause where
  condition : Expr
  body : List Statement

/-- The token begins one more clause of a conditional. -/
def Token.BeginsClause (token : Token) : Prop :=
  token.kind = .elseifWord ∨ token.kind = .elseWord

/-- The token begins a clause of a conditional, the first one or one more. -/
def Token.IsClauseWord (token : Token) : Prop :=
  token.kind = .ifWord ∨ token.BeginsClause

/-- The alternative that clauses make in this order. Each one stands alone in the alternative of the one before. -/
def alternativeOf : List Clause → Option (List Statement) → Option (List Statement)
  | [], otherwise => otherwise
  | clause :: rest, otherwise => some [.ifElse clause.condition clause.body (alternativeOf rest otherwise)]

namespace Grammar

/-- The tokens are a keyword of this kind, the condition and the block of the clause. -/
inductive DerivesClause (kind : Kind) : List Token → Clause → Prop
  | intro {keyword : Token} {conditionTokens bodyTokens : List Token} {condition : Expr} {body : List Statement}
      {conditionLevels bodyLevels : Nat} (hkeyword : keyword.kind = kind)
      (hcondition : DerivesExpr .comparison conditionTokens condition conditionLevels)
      (hbody : DerivesBlock bodyTokens body bodyLevels) :
      DerivesClause kind (keyword :: (conditionTokens ++ bodyTokens)) ⟨condition, body⟩

/-- The tokens are `else` with a block, or there are none. -/
inductive DerivesElse : List Token → Option (List Statement) → Prop
  | absent : DerivesElse [] none
  | block {keyword : Token} {tokens : List Token} {body : List Statement} {levels : Nat}
      (hkeyword : keyword.kind = .elseWord) (hbody : DerivesBlock tokens body levels) :
      DerivesElse (keyword :: tokens) (some body)

/-- The tokens are any number of clauses with `elseif`, in this order, and perhaps `else`. -/
inductive DerivesClauses : List Token → List Clause → Option (List Statement) → Prop
  | intro {parts : List (List Token)} {elseTokens : List Token} {clauses : List Clause}
      {otherwise : Option (List Statement)} (hclauses : List.Forall₂ (DerivesClause .elseifWord) parts clauses)
      (helse : DerivesElse elseTokens otherwise) : DerivesClauses (parts.flatten ++ elseTokens) clauses otherwise

/-- The tokens are a clause that begins with a keyword of this kind, and the clauses behind it. -/
inductive DerivesRow (kind : Kind) : List Token → List Clause → Option (List Statement) → Prop
  | intro {firstTokens tokens : List Token} {first : Clause} {clauses : List Clause}
      {otherwise : Option (List Statement)} (hfirst : DerivesClause kind firstTokens first)
      (hclauses : DerivesClauses tokens clauses otherwise) :
      DerivesRow kind (firstTokens ++ tokens) (first :: clauses) otherwise

theorem DerivesRow.derivesClauses {tokens : List Token} {clauses : List Clause} {otherwise : Option (List Statement)}
    (h : DerivesRow .elseifWord tokens clauses otherwise) : DerivesClauses tokens clauses otherwise := by
  obtain ⟨hfirst, hclauses, helse⟩ := h
  simpa using DerivesClauses.intro (.cons hfirst hclauses) helse

/-! ### From the row to the nesting -/

theorem DerivesClauses.derivesAlternative {tokens : List Token} {clauses : List Clause}
    {otherwise : Option (List Statement)} (h : DerivesClauses tokens clauses otherwise) :
    ∃ levels, DerivesAlternative tokens (alternativeOf clauses otherwise) levels := by
  obtain ⟨hclauses, helse⟩ := h
  induction hclauses with
  | nil =>
      cases helse with
      | absent => exact ⟨0, .absent⟩
      | block hkeyword hbody => exact ⟨_, .elseBlock hkeyword hbody⟩
  | cons hclause _ ih =>
      obtain ⟨levels, hrest⟩ := ih
      obtain ⟨hkeyword, hcondition, hbody⟩ := hclause
      have helseIf := DerivesAlternative.elseIf hkeyword (.intro hcondition hbody hrest)
      exact ⟨_, by simpa [alternativeOf] using helseIf⟩

theorem DerivesRow.derivesConditional {kind : Kind} {tokens : List Token} {clauses : List Clause}
    {otherwise : Option (List Statement)} (h : DerivesRow kind tokens clauses otherwise) :
    ∃ keyword rest statement levels, tokens = keyword :: rest ∧ keyword.kind = kind ∧
      DerivesConditional rest statement levels ∧ alternativeOf clauses otherwise = some [statement] := by
  obtain ⟨⟨hkeyword, hcondition, hbody⟩, hclauses⟩ := h
  obtain ⟨levels, halternative⟩ := hclauses.derivesAlternative
  have hconditional := DerivesConditional.intro hcondition hbody halternative
  rw [← List.append_assoc] at hconditional
  exact ⟨_, _, _, _, List.cons_append, hkeyword, hconditional, rfl⟩

/-! ### From the nesting to the row -/

mutual

theorem DerivesConditional.exists_row {tokens : List Token} {statement : Statement} {levels : Nat}
    (h : DerivesConditional tokens statement levels) (keyword : Token) :
    ∃ clauses otherwise, DerivesRow keyword.kind (keyword :: tokens) clauses otherwise ∧
      alternativeOf clauses otherwise = some [statement] := by
  match h with
  | .intro hcondition hbody halternative =>
      obtain ⟨clauses, otherwise, hclauses, rfl⟩ := halternative.exists_clauses
      refine ⟨⟨_, _⟩ :: clauses, otherwise, ?_, rfl⟩
      rw [← List.append_assoc, ← List.cons_append]
      exact .intro (.intro rfl hcondition hbody) hclauses

theorem DerivesAlternative.exists_clauses {tokens : List Token} {alternative : Option (List Statement)}
    {levels : Nat} (h : DerivesAlternative tokens alternative levels) :
    ∃ clauses otherwise, DerivesClauses tokens clauses otherwise ∧ alternativeOf clauses otherwise = alternative := by
  match h with
  | .absent => exact ⟨[], none, .intro .nil .absent, rfl⟩
  | @DerivesAlternative.elseIf keyword _ _ _ hkeyword hconditional =>
      obtain ⟨clauses, otherwise, hrow, heq⟩ := hconditional.exists_row keyword
      rw [hkeyword] at hrow
      exact ⟨clauses, otherwise, hrow.derivesClauses, heq⟩
  | .elseBlock hkeyword hbody => exact ⟨[], _, .intro .nil (.block hkeyword hbody), rfl⟩

end

/-! ### Where a clause can begin -/

theorem not_isClauseWord_of_operator {tier : Tier} {token : Token} {operator : Operator}
    (h : (token.kind, operator) ∈ tier.operators) : ¬token.IsClauseWord := by
  have hall : ∀ rule ∈ tier.operators, ¬(rule.1 = .ifWord ∨ rule.1 = .elseifWord ∨ rule.1 = .elseWord) := by
    cases tier <;> decide
  exact hall _ h

/-- A clause is found by its keyword, which stands in no expression. -/
theorem DerivesExpr.not_isClauseWord {tier : Tier} {tokens : List Token} {expr : Expr} {levels : Nat}
    (h : DerivesExpr tier tokens expr levels) : ∀ token ∈ tokens, ¬token.IsClauseWord := by
  induction h with
  | number hkind | string hkind | boolean hkind | null hkind | var hkind =>
      simp [Token.IsClauseWord, Token.BeginsClause, hkind]
  | parens hopening _ hclosing ih =>
      simp only [List.forall_mem_cons, List.forall_mem_append]
      exact ⟨by simp [Token.IsClauseWord, Token.BeginsClause, hopening], ih,
        by simp [Token.IsClauseWord, Token.BeginsClause, hclosing]⟩
  | negate hminus _ ih =>
      rw [List.forall_mem_cons]
      exact ⟨by simp [Token.IsClauseWord, Token.BeginsClause, hminus], ih⟩
  | binary _ hoperator _ ihleft ihright =>
      rw [List.forall_mem_append, List.forall_mem_cons]
      exact ⟨ihleft, not_isClauseWord_of_operator hoperator, ihright⟩
  | single _ ih => exact ih

/-! ### Where a conditional ends -/

/-- The tokens do not go on with another clause. -/
def NoClause (tokens : List Token) : Prop :=
  ∀ token ∈ tokens.head?, ¬token.BeginsClause

theorem Ends.noClause {tokens : List Token} (h : Ends tokens) : NoClause tokens :=
  fun token htoken => not_or.mpr (h token htoken).2

theorem noClause_cons_iff {token : Token} {tokens : List Token} :
    NoClause (token :: tokens) ↔ ¬token.BeginsClause := by
  simp [NoClause]

-- By recursion on the first derivation, clause by clause.
mutual

/-- A conditional ends with a block, so anything may follow it but another clause. -/
theorem DerivesConditional.append_inj {tokens tokens' rest rest' : List Token} {statement statement' : Statement}
    {levels levels' : Nat} (h : DerivesConditional tokens statement levels)
    (h' : DerivesConditional tokens' statement' levels') (hrest : NoClause rest) (hrest' : NoClause rest')
    (heq : tokens ++ rest = tokens' ++ rest') : tokens = tokens' ∧ rest = rest' := by
  match h with
  | .intro hcondition hbody halternative =>
      cases h' with
      | intro hcondition' hbody' halternative' =>
          rw [List.append_assoc, List.append_assoc, List.append_assoc, List.append_assoc] at heq
          obtain ⟨hfront, hmore⟩ := hcondition.append_inj hcondition' (hbody.stops _) (hbody'.stops _) heq
          obtain ⟨hblock, hlast⟩ := hbody.append_inj hbody' hmore
          obtain ⟨halternatives, hrests⟩ := halternative.append_inj halternative' hrest hrest' hlast
          rw [hfront, hblock, halternatives]
          exact ⟨rfl, hrests⟩
termination_by structural h

theorem DerivesAlternative.append_inj {tokens tokens' rest rest' : List Token}
    {alternative alternative' : Option (List Statement)} {levels levels' : Nat}
    (h : DerivesAlternative tokens alternative levels) (h' : DerivesAlternative tokens' alternative' levels')
    (hrest : NoClause rest) (hrest' : NoClause rest') (heq : tokens ++ rest = tokens' ++ rest') :
    tokens = tokens' ∧ rest = rest' := by
  match h with
  | .absent =>
      cases h' with
      | absent => exact ⟨rfl, heq⟩
      | elseIf hkeyword' =>
          rw [← List.nil_append rest, heq] at hrest
          exact absurd (.inl hkeyword') (noClause_cons_iff.mp hrest)
      | elseBlock hkeyword' =>
          rw [← List.nil_append rest, heq] at hrest
          exact absurd (.inr hkeyword') (noClause_cons_iff.mp hrest)
  | .elseIf hkeyword hconditional =>
      cases h' with
      | absent =>
          rw [← List.nil_append rest', ← heq] at hrest'
          exact absurd (.inl hkeyword) (noClause_cons_iff.mp hrest')
      | elseIf _ hconditional' =>
          obtain ⟨hkeywords, hmore⟩ := List.cons.inj heq
          obtain ⟨htokens, hrests⟩ := hconditional.append_inj hconditional' hrest hrest' hmore
          exact ⟨by rw [hkeywords, htokens], hrests⟩
      | elseBlock hkeyword' =>
          rw [(List.cons.inj heq).1, hkeyword'] at hkeyword
          cases hkeyword
  | .elseBlock hkeyword hbody =>
      cases h' with
      | absent =>
          rw [← List.nil_append rest', ← heq] at hrest'
          exact absurd (.inr hkeyword) (noClause_cons_iff.mp hrest')
      | elseIf hkeyword' =>
          rw [(List.cons.inj heq).1, hkeyword'] at hkeyword
          cases hkeyword
      | elseBlock _ hbody' =>
          obtain ⟨hkeywords, hmore⟩ := List.cons.inj heq
          obtain ⟨htokens, hrests⟩ := hbody.append_inj hbody' hmore
          exact ⟨by rw [hkeywords, htokens], hrests⟩
termination_by structural h

end

/-- The tokens of a conditional tell the statement. -/
theorem DerivesConditional.unique {tokens : List Token} {statement statement' : Statement} {levels levels' : Nat}
    (h : DerivesConditional tokens statement levels) (h' : DerivesConditional tokens statement' levels')
    (keyword : Token) : statement = statement' := by
  have hread := (h.fits (Nat.le_max_left levels levels')).accepts keyword blockEnds_nil.ends
  have hread' := (h'.fits (Nat.le_max_right levels levels')).accepts keyword blockEnds_nil.ends
  exact (hread.unique hread').1

end Grammar

end ScriptLang
