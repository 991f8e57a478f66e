import ScriptLang.Proofs.Grammar.Completeness
/-!
# A derivation is decided by its tokens

The rules go from left to right and never back, so the tokens tell what they stand for and where a phrase in front of
others ends. Parentheses leave nothing behind in an expression, yet the tokens tell their levels too: no pair of
parentheses is an operator with its operands, and an operator is found by counting the nodes of its left operand.
-/

namespace ScriptLang

/-- The token stands for a node of an expression. -/
def Token.isNode (token : Token) : Bool :=
  token.kind != .openParen && token.kind != .closeParen

theorem Token.isNode_of_operator {tier : Tier} {token : Token} {operator : Operator}
    (h : (token.kind, operator) ∈ tier.operators) : token.isNode = true := by
  have hall : ∀ rule ∈ tier.operators, (rule.1 != .openParen && rule.1 != .closeParen) = true := by
    cases tier <;> decide
  exact hall _ h

namespace Grammar

open Rule

theorem Rule.Accepts.unique {α : Type} {rule : Rule α} {value value' : α} {before after after' : List Token}
    (h : Accepts rule value before after) (h' : Accepts rule value' before after') :
    value = value' ∧ after = after' := by
  obtain ⟨lines, hok⟩ := h #[]
  obtain ⟨lines', hok'⟩ := h' #[]
  rw [hok] at hok'
  cases hok'
  exact ⟨rfl, rfl⟩

/-- A rule that takes one phrase or the other from the same tokens takes the same one. -/
theorem Rule.Accepts.append_inj {α : Type} {rule : Rule α} {value value' : α} {tokens tokens' rest rest' : List Token}
    (h : Accepts rule value (tokens ++ rest) rest) (h' : Accepts rule value' (tokens' ++ rest') rest')
    (heq : tokens ++ rest = tokens' ++ rest') : tokens = tokens' ∧ rest = rest' := by
  rw [heq] at h
  obtain ⟨_, rfl⟩ := h.unique h'
  exact ⟨List.append_cancel_right heq, rfl⟩

/-! ### Where a phrase ends -/

section

variable {tokens tokens' rest rest' : List Token} {levels levels' : Nat}

theorem DerivesExpr.append_inj {tier : Tier} {expr expr' : Expr} (h : DerivesExpr tier tokens expr levels)
    (h' : DerivesExpr tier tokens' expr' levels') (hstops : tier.Stops rest) (hstops' : tier.Stops rest')
    (heq : tokens ++ rest = tokens' ++ rest') : tokens = tokens' ∧ rest = rest' := by
  have hread := (h.fits (Nat.le_max_left levels levels')).accepts hstops
  have hread' := (h'.fits (Nat.le_max_right levels levels')).accepts hstops'
  exact hread.append_inj hread' heq

theorem DerivesStatement.append_inj {statement statement' : Statement}
    (h : DerivesStatement tokens statement levels) (h' : DerivesStatement tokens' statement' levels')
    (hends : Ends rest) (hends' : Ends rest') (heq : tokens ++ rest = tokens' ++ rest') :
    tokens = tokens' ∧ rest = rest' := by
  have hread := (h.fits (Nat.le_max_left levels levels')).accepts hends
  have hread' := (h'.fits (Nat.le_max_right levels levels')).accepts hends'
  exact hread.append_inj hread' heq

theorem DerivesBlock.append_inj {body body' : List Statement} (h : DerivesBlock tokens body levels)
    (h' : DerivesBlock tokens' body' levels') (heq : tokens ++ rest = tokens' ++ rest') :
    tokens = tokens' ∧ rest = rest' := by
  have hread := (h.fits (Nat.le_max_left levels levels')).accepts rest
  have hread' := (h'.fits (Nat.le_max_right levels levels')).accepts rest'
  exact hread.append_inj hread' heq

theorem DerivesBlock.stops {body : List Statement} (h : DerivesBlock tokens body levels) (rest : List Token) :
    Tier.comparison.Stops (tokens ++ rest) :=
  (h.fits (Nat.le_refl levels)).stops rest

theorem DerivesStatements.ends {body : List Statement} (h : DerivesStatements tokens body levels) : Ends tokens := by
  simpa using (h.fits (Nat.le_refl levels)).ends blockEnds_nil.ends

end

/-! ### Expressions -/

theorem DerivesExpr.ne_nil {tier : Tier} {tokens : List Token} {expr : Expr} {levels : Nat}
    (h : DerivesExpr tier tokens expr levels) : tokens ≠ [] := by
  induction h with
  | single _ ih => exact ih
  | _ => simp

/-- Every expression begins with a signed operand. -/
theorem DerivesExpr.exists_operand {tier : Tier} {tokens : List Token} {expr : Expr} {levels : Nat}
    (h : DerivesExpr tier tokens expr levels) :
    ∃ front rest operand below, tokens = front ++ rest ∧ DerivesExpr .unary front operand below := by
  induction h with
  | number hkind hvalue => exact ⟨_, [], _, _, rfl, .number hkind hvalue⟩
  | string hkind => exact ⟨_, [], _, _, rfl, .string hkind⟩
  | boolean hkind => exact ⟨_, [], _, _, rfl, .boolean hkind⟩
  | null hkind => exact ⟨_, [], _, _, rfl, .null hkind⟩
  | var hkind => exact ⟨_, [], _, _, rfl, .var hkind⟩
  | parens hopening hinside hclosing =>
      exact ⟨_, [], _, _, (List.append_nil _).symm, hinside.parens hopening hclosing⟩
  | negate hminus hoperand => exact ⟨_, [], _, _, (List.append_nil _).symm, hoperand.negate hminus⟩
  | @binary _ _ token _ rightTokens _ _ _ _ _ _ _ ihleft =>
      obtain ⟨front, rest, operand, below, rfl, hfront⟩ := ihleft
      exact ⟨front, rest ++ token :: rightTokens, operand, below, List.append_assoc _ _ _, hfront⟩
  | single _ ih => exact ih

/-- A signed operand is read to its end, so it does not go on with an operator. -/
theorem DerivesExpr.not_operand {tier : Tier} {token : Token} {leftTokens rightTokens : List Token}
    {left expr : Expr} {leftLevels levels : Nat} (hleft : DerivesExpr tier leftTokens left leftLevels) :
    ¬DerivesExpr .unary (leftTokens ++ token :: rightTokens) expr levels := by
  intro h
  obtain ⟨front, rest, operand, below, rfl, hfront⟩ := hleft.exists_operand
  have heq : (front ++ rest ++ token :: rightTokens) ++ [] = front ++ (rest ++ token :: rightTokens) := by simp
  have hrest := (h.append_inj hfront (Tier.stops_unary _) (Tier.stops_unary _) heq).2
  simp at hrest

/-- Every node has one token, and no other tokens but parentheses are there. -/
theorem DerivesExpr.countP_isNode {tier : Tier} {tokens : List Token} {expr : Expr} {levels : Nat}
    (h : DerivesExpr tier tokens expr levels) : tokens.countP Token.isNode = expr.nodeCount := by
  induction h with
  | number hkind | string hkind | boolean hkind | null hkind | var hkind =>
      simp [Token.isNode, hkind, Expr.nodeCount]
  | parens hopening _ hclosing ih => simp [Token.isNode, hopening, hclosing, ih]
  | negate hminus _ ih => simp [Token.isNode, hminus, ih, Expr.nodeCount]
  | binary _ hoperator _ ihleft ihright =>
      simp [Token.isNode_of_operator hoperator, ihleft, ihright, Expr.nodeCount, Nat.add_assoc]
  | single _ ih => exact ih

/-- Two ways to split the tokens at an operator are one if the left operands are. -/
theorem DerivesExpr.split_inj {tier tier' : Tier} {token token' : Token} {operator operator' : Operator}
    {leftTokens leftTokens' rightTokens rightTokens' : List Token} {left : Expr} {levels levels' : Nat}
    (h : DerivesExpr tier leftTokens left levels) (h' : DerivesExpr tier' leftTokens' left levels')
    (hoperator : (token.kind, operator) ∈ tier.operators) (hoperator' : (token'.kind, operator') ∈ tier'.operators)
    (heq : leftTokens ++ token :: rightTokens = leftTokens' ++ token' :: rightTokens') :
    leftTokens = leftTokens' ∧ rightTokens = rightTokens' := by
  have hcount : leftTokens.countP Token.isNode = leftTokens'.countP Token.isNode := by
    rw [h.countP_isNode, h'.countP_isNode]
  have hnode := Token.isNode_of_operator hoperator
  have hnode' := Token.isNode_of_operator hoperator'
  rcases List.append_eq_append_iff.mp heq with ⟨more, rfl, hmore⟩ | ⟨more, rfl, hmore⟩
  · cases more with
    | nil => exact ⟨(List.append_nil _).symm, (List.cons.inj hmore).2⟩
    | cons first more =>
        obtain ⟨rfl, _⟩ := List.cons.inj hmore
        simp [hnode] at hcount
  · cases more with
    | nil => exact ⟨List.append_nil _, (List.cons.inj hmore).2.symm⟩
    | cons first more =>
        obtain ⟨rfl, _⟩ := List.cons.inj hmore
        simp [hnode'] at hcount

/-! The last rule of a derivation, up to a change of tier. -/

section

variable {tier : Tier} {tokens : List Token} {expr : Expr} {levels : Nat}

theorem DerivesExpr.of_token {token : Token} (h : DerivesExpr tier tokens expr levels) (htokens : tokens = [token]) :
    levels = 1 := by
  induction h with
  | number | string | boolean | null | var => rfl
  | parens => simp at htokens
  | negate _ hoperand => exact absurd (List.cons.inj htokens).2 hoperand.ne_nil
  | binary hleft =>
      rcases List.append_eq_singleton_iff.mp htokens with ⟨hnil, _⟩ | ⟨_, hcons⟩
      · exact absurd hnil hleft.ne_nil
      · cases hcons
  | single _ ih => exact ih htokens

theorem DerivesExpr.of_parens {opening closing : Token} {inside : List Token} {levels' : Nat}
    (h : DerivesExpr tier tokens expr levels) (hopening : opening.kind = .openParen)
    (htokens : tokens = opening :: (inside ++ [closing])) (hwhole : DerivesExpr .unary tokens expr levels') :
    ∃ below, DerivesExpr .comparison inside expr below ∧ levels = below + 1 := by
  induction h with
  | number | string | boolean | null | var => simp at htokens
  | @parens _ _ _ _ below _ hinside _ _ =>
      obtain ⟨rfl, hmore⟩ := List.cons.inj htokens
      obtain ⟨rfl, _⟩ := List.append_inj' hmore rfl
      exact ⟨below, hinside, rfl⟩
  | negate hminus =>
      obtain ⟨rfl, _⟩ := List.cons.inj htokens
      rw [hopening] at hminus
      cases hminus
  | binary hleft => exact absurd hwhole hleft.not_operand
  | single _ ih => exact ih htokens hwhole

theorem DerivesExpr.of_negate {minus : Token} {inside : List Token} {operand : Expr}
    (h : DerivesExpr tier tokens expr levels) (hminus : minus.kind = .minus) (htokens : tokens = minus :: inside)
    (hexpr : expr = .negate operand) : ∃ below, DerivesExpr .unary inside operand below ∧ levels = below + 1 := by
  induction h with
  | number | string | boolean | null | var | binary => cases hexpr
  | parens hopening =>
      obtain ⟨rfl, _⟩ := List.cons.inj htokens
      rw [hminus] at hopening
      cases hopening
  | @negate _ _ _ below _ hoperand _ =>
      cases htokens
      cases hexpr
      exact ⟨below, hoperand, rfl⟩
  | single _ ih => exact ih htokens hexpr

theorem DerivesExpr.of_binary {operatorTier : Tier} {operator : Operator} {token : Token}
    {leftTokens rightTokens : List Token} {left right : Expr} {levels' : Nat}
    (h : DerivesExpr tier tokens expr levels) (hleft : DerivesExpr operatorTier leftTokens left levels')
    (hoperator : (token.kind, operator) ∈ operatorTier.operators)
    (htokens : tokens = leftTokens ++ token :: rightTokens) (hexpr : expr = .binary operator left right) :
    ∃ leftLevels rightLevels, DerivesExpr operatorTier leftTokens left leftLevels ∧
      DerivesExpr operatorTier.tighter rightTokens right rightLevels ∧ levels = max leftLevels rightLevels + 1 := by
  induction h with
  | number | string | boolean | null | var | negate => cases hexpr
  | parens hopening hinside hclosing =>
      have hwhole := hinside.parens hopening hclosing
      rw [htokens] at hwhole
      exact absurd hwhole hleft.not_operand
  | @binary tier _ _ _ _ _ _ leftLevels rightLevels hleft' hoperator' hright' _ _ =>
      cases hexpr
      obtain ⟨rfl, rfl⟩ := hleft'.split_inj hleft hoperator' hoperator htokens
      obtain rfl : operatorTier = tier :=
        (Operator.tier_of_mem_operators hoperator).symm.trans (Operator.tier_of_mem_operators hoperator')
      exact ⟨leftLevels, rightLevels, hleft', hright', rfl⟩
  | single _ ih => exact ih htokens hexpr

end

theorem DerivesExpr.levels_eq {tier tier' : Tier} {tokens : List Token} {expr : Expr} {levels levels' : Nat}
    (h : DerivesExpr tier tokens expr levels) (h' : DerivesExpr tier' tokens expr levels') : levels = levels' := by
  induction h generalizing tier' levels' with
  | number | string | boolean | null | var => exact (h'.of_token rfl).symm
  | parens hopening hinside hclosing ih =>
      obtain ⟨below, hbelow, rfl⟩ := h'.of_parens hopening rfl (hinside.parens hopening hclosing)
      rw [ih hbelow]
  | negate hminus _ ih =>
      obtain ⟨below, hbelow, rfl⟩ := h'.of_negate hminus rfl rfl
      rw [ih hbelow]
  | binary hleft hoperator _ ihleft ihright =>
      obtain ⟨leftLevels, rightLevels, hleft', hright', rfl⟩ := h'.of_binary hleft hoperator rfl rfl
      rw [ihleft hleft', ihright hright']
  | single _ ih => exact ih h'

/-! ### Statements -/

-- By recursion on the first derivation. The equations stay apart: what is rewritten is no longer a part of it.
mutual

theorem DerivesStatement.levels_eq {tokens tokens' : List Token} {statement statement' : Statement}
    {levels levels' : Nat} (h : DerivesStatement tokens statement levels)
    (h' : DerivesStatement tokens' statement' levels') (htokens : tokens = tokens')
    (hstatement : statement = statement') : levels = levels' := by
  match h with
  | .assign _ _ hvalue =>
      cases h' with
      | assign _ _ hvalue' =>
          cases htokens
          cases hstatement
          rw [hvalue.levels_eq hvalue']
      | ifElse _ hconditional' =>
          cases hconditional'
          cases hstatement
      | _ => cases hstatement
  | .print _ _ hvalue _ =>
      cases h' with
      | print _ _ hvalue' _ =>
          obtain ⟨_, hmore⟩ := List.cons.inj htokens
          obtain ⟨_, hinside⟩ := List.cons.inj hmore
          obtain ⟨rfl, _⟩ := List.append_inj' hinside rfl
          cases hstatement
          rw [hvalue.levels_eq hvalue']
      | ifElse _ hconditional' =>
          cases hconditional'
          cases hstatement
      | _ => cases hstatement
  | .ifElse _ hconditional =>
      cases h' with
      | ifElse _ hconditional' =>
          exact hconditional.levels_eq hconditional' (List.cons.inj htokens).2 hstatement
      | _ =>
          cases hconditional
          cases hstatement
  | .whileLoop _ hcondition hbody =>
      cases h' with
      | whileLoop _ hcondition' hbody' =>
          have hstops := hbody.stops []
          have hstops' := hbody'.stops []
          rw [List.append_nil] at hstops hstops'
          obtain ⟨hexpr, hbodies⟩ := Statement.whileLoop.inj hstatement
          obtain ⟨hfront, hrest⟩ := hcondition.append_inj hcondition' hstops hstops' (List.cons.inj htokens).2
          rw [← hfront, ← hexpr] at hcondition'
          rw [hcondition.levels_eq hcondition', hbody.levels_eq hbody' hrest hbodies]
      | ifElse _ hconditional' =>
          cases hconditional'
          cases hstatement
      | _ => cases hstatement
  | .forRange _ _ _ _ _ _ _ _ hbody =>
      cases h' with
      | forRange _ _ _ _ _ _ _ _ hbody' =>
          obtain ⟨_, _, hbodies⟩ := Statement.forRange.inj hstatement
          rw [hbody.levels_eq hbody' (congrArg (List.drop 7) htokens) hbodies]
      | ifElse _ hconditional' =>
          cases hconditional'
          cases hstatement
      | _ => cases hstatement
termination_by structural h

theorem DerivesConditional.levels_eq {tokens tokens' : List Token} {statement statement' : Statement}
    {levels levels' : Nat} (h : DerivesConditional tokens statement levels)
    (h' : DerivesConditional tokens' statement' levels') (htokens : tokens = tokens')
    (hstatement : statement = statement') : levels = levels' := by
  match h with
  | .intro hcondition hbody halternative =>
      cases h' with
      | intro hcondition' hbody' halternative' =>
          obtain ⟨hexpr, hbodies, halternatives⟩ := Statement.ifElse.inj hstatement
          obtain ⟨hfront, hmore⟩ := hcondition.append_inj hcondition' (hbody.stops _) (hbody'.stops _) htokens
          obtain ⟨hblock, hrest⟩ := hbody.append_inj hbody' hmore
          rw [← hfront, ← hexpr] at hcondition'
          rw [hcondition.levels_eq hcondition', hbody.levels_eq hbody' hblock hbodies,
            halternative.levels_eq halternative' hrest halternatives]
termination_by structural h

theorem DerivesAlternative.levels_eq {tokens tokens' : List Token} {alternative alternative' : Option (List Statement)}
    {levels levels' : Nat} (h : DerivesAlternative tokens alternative levels)
    (h' : DerivesAlternative tokens' alternative' levels') (htokens : tokens = tokens')
    (halternative : alternative = alternative') : levels = levels' := by
  match h with
  | .absent =>
      cases h' with
      | absent => rfl
      | _ => cases halternative
  | .elseIf hkeyword hconditional =>
      cases h' with
      | absent => cases halternative
      | elseIf _ hconditional' =>
          have hstatement := (List.cons.inj (Option.some.inj halternative)).1
          exact hconditional.levels_eq hconditional' (List.cons.inj htokens).2 hstatement
      | elseBlock hkeyword' =>
          obtain ⟨rfl, _⟩ := List.cons.inj htokens
          rw [hkeyword] at hkeyword'
          cases hkeyword'
  | .elseBlock hkeyword hbody =>
      cases h' with
      | absent => cases halternative
      | elseIf hkeyword' =>
          obtain ⟨rfl, _⟩ := List.cons.inj htokens
          rw [hkeyword] at hkeyword'
          cases hkeyword'
      | elseBlock _ hbody' =>
          exact hbody.levels_eq hbody' (List.cons.inj htokens).2 (Option.some.inj halternative)
termination_by structural h

theorem DerivesBlock.levels_eq {tokens tokens' : List Token} {body body' : List Statement} {levels levels' : Nat}
    (h : DerivesBlock tokens body levels) (h' : DerivesBlock tokens' body' levels') (htokens : tokens = tokens')
    (hbody : body = body') : levels = levels' := by
  match h with
  | .intro _ hstatements _ =>
      cases h' with
      | intro _ hstatements' _ =>
          have hinside := (List.append_inj' (List.cons.inj htokens).2 rfl).1
          exact hstatements.levels_eq hstatements' hinside hbody
termination_by structural h

theorem DerivesStatements.levels_eq {tokens tokens' : List Token} {body body' : List Statement} {levels levels' : Nat}
    (h : DerivesStatements tokens body levels) (h' : DerivesStatements tokens' body' levels')
    (htokens : tokens = tokens') (hbody : body = body') : levels = levels' := by
  match h with
  | .nil =>
      cases h' with
      | nil => rfl
      | cons => cases hbody
  | .cons hfirst hstatements =>
      cases h' with
      | nil => cases hbody
      | cons hfirst' hstatements' =>
          obtain ⟨hstatement, hrest⟩ := List.cons.inj hbody
          obtain ⟨hfront, hmore⟩ := hfirst.append_inj hfirst' hstatements.ends hstatements'.ends htokens
          rw [hfirst.levels_eq hfirst' hfront hstatement, hstatements.levels_eq hstatements' hmore hrest]
termination_by structural h

end

/-- The tokens of a program tell the program and how deep it is nested. -/
theorem DerivesProgram.unique {tokens : List Token} {result result' : Program} {levels levels' : Nat}
    (h : DerivesProgram tokens result levels) (h' : DerivesProgram tokens result' levels') :
    result = result' ∧ levels = levels' := by
  have hread := (DerivesStatements.fits h (Nat.le_max_left levels levels')).accepts
    (Nat.le_max_left _ result'.statements.length) blockEnds_nil
  have hread' := (DerivesStatements.fits h' (Nat.le_max_right levels levels')).accepts
    (Nat.le_max_right result.statements.length _) blockEnds_nil
  have hstatements := (hread.unique hread').1
  refine ⟨?_, DerivesStatements.levels_eq h h' rfl hstatements⟩
  cases result
  cases result'
  exact congrArg Program.mk hstatements

theorem DerivesProgram.iff_eq {tokens : List Token} {result : Program} {levels : Nat}
    (h : DerivesProgram tokens result levels) (result' : Program) (levels' : Nat) :
    DerivesProgram tokens result' levels' ↔ result' = result ∧ levels' = levels := by
  constructor
  · intro h'
    exact h'.unique h
  · rintro ⟨rfl, rfl⟩
    exact h

end Grammar

end ScriptLang
