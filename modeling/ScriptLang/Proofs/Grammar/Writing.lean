import ScriptLang.Proofs.Grammar.Soundness
import ScriptLang.Proofs.Program.Leaves
/-!
# Every leaf has a token

Names and literals are tokens of their own, and so is the count of a loop. A derivation keeps their order: read from
left to right, the tokens of these kinds write the leaves of the program one by one, and no other token adds any.
-/

namespace ScriptLang

/-- Tokens of this kind are names or literals. -/
def Kind.isLeaf : Kind → Bool
  | .identifier | .number | .string | .boolean | .null => true
  | _ => false

/-- What a name or a literal stands for; a number may stand for nothing. -/
def Token.leaf? (token : Token) : Option Leaf :=
  match token.kind with
  | .identifier => some (.name token.text)
  | .number => (Grammar.numberOf? token.text).map .value
  | .string => some (.value (.string (literalText token.text)))
  | .boolean => some (.value (.bool (token.text = "true")))
  | .null => some (.value .null)
  | _ => none

theorem Kind.isLeaf_of_operator {tier : Tier} {operator : Operator} {kind : Kind}
    (h : (kind, operator) ∈ tier.operators) : kind.isLeaf = false := by
  have hall : ∀ rule ∈ tier.operators, rule.1.isLeaf = false := by cases tier <;> decide
  exact hall _ h

/-- The tokens that are names or literals stand for these leaves, in this order. -/
inductive Writes : List Token → List Leaf → Prop
  | nil : Writes [] []
  | skip {token : Token} {tokens : List Token} {leaves : List Leaf} (hkind : token.kind.isLeaf = false)
      (htokens : Writes tokens leaves) : Writes (token :: tokens) leaves
  | leaf {token : Token} {tokens : List Token} {leaf : Leaf} {leaves : List Leaf} (hkind : token.kind.isLeaf = true)
      (hleaf : token.leaf? = some leaf) (htokens : Writes tokens leaves) : Writes (token :: tokens) (leaf :: leaves)

namespace Writes

variable {tokens more : List Token} {leaves moreLeaves : List Leaf} {token : Token}

theorem append (h : Writes tokens leaves) (hmore : Writes more moreLeaves) :
    Writes (tokens ++ more) (leaves ++ moreLeaves) := by
  induction h with
  | nil => exact hmore
  | skip hkind _ ih => exact .skip hkind ih
  | leaf hkind hleaf _ ih => exact .leaf hkind hleaf ih

theorem snoc (h : Writes tokens leaves) (hkind : token.kind.isLeaf = false) : Writes (tokens ++ [token]) leaves := by
  rw [← List.append_nil leaves]
  exact h.append (.skip hkind .nil)

theorem name (hkind : token.kind = .identifier) (h : Writes tokens leaves) :
    Writes (token :: tokens) (.name token.text :: leaves) :=
  .leaf (congrArg Kind.isLeaf hkind) (by rw [Token.leaf?, hkind]) h

theorem number {value : Value} (hkind : token.kind = .number) (hvalue : Grammar.numberOf? token.text = some value)
    (h : Writes tokens leaves) : Writes (token :: tokens) (.value value :: leaves) :=
  .leaf (congrArg Kind.isLeaf hkind) (by rw [Token.leaf?, hkind, hvalue]; rfl) h

/-- Comments have no leaves. -/
theorem of_withoutComments (h : Writes (withoutComments tokens) leaves) : Writes tokens leaves := by
  induction tokens generalizing leaves with
  | nil => exact h
  | cons token tokens ih =>
      by_cases hcomment : token.kind = .comment
      · rw [withoutComments, List.filter_cons_of_neg (by simp [hcomment])] at h
        exact .skip (congrArg Kind.isLeaf hcomment) (ih h)
      · rw [withoutComments, List.filter_cons_of_pos (by simp [hcomment])] at h
        cases h with
        | skip hkind h => exact .skip hkind (ih h)
        | leaf hkind hleaf h => exact .leaf hkind hleaf (ih h)

/-- Every leaf is written by one of the tokens. -/
theorem exists_token (h : Writes tokens leaves) : ∀ leaf ∈ leaves, ∃ token ∈ tokens, token.leaf? = some leaf := by
  induction h with
  | nil => simp
  | skip _ _ ih =>
      intro leaf hleaf
      obtain ⟨token, htoken, heq⟩ := ih leaf hleaf
      exact ⟨token, List.mem_cons_of_mem _ htoken, heq⟩
  | leaf _ hfirst _ ih =>
      rw [List.forall_mem_cons]
      refine ⟨⟨_, List.mem_cons_self, hfirst⟩, fun leaf hleaf => ?_⟩
      obtain ⟨token, htoken, heq⟩ := ih leaf hleaf
      exact ⟨token, List.mem_cons_of_mem _ htoken, heq⟩

end Writes

/-! ### Derivations -/

namespace Grammar

theorem DerivesExpr.writes {tier : Tier} {tokens : List Token} {expr : Expr} {levels : Nat}
    (h : DerivesExpr tier tokens expr levels) : Writes tokens expr.leaves := by
  induction h with
  | number hkind hvalue => exact .number hkind hvalue .nil
  | string hkind | boolean hkind | null hkind =>
      exact .leaf (congrArg Kind.isLeaf hkind) (by rw [Token.leaf?, hkind]) .nil
  | var hkind => exact .name hkind .nil
  | parens hopening _ hclosing ih =>
      exact .skip (congrArg Kind.isLeaf hopening) (ih.snoc (congrArg Kind.isLeaf hclosing))
  | negate hminus _ ih => exact .skip (congrArg Kind.isLeaf hminus) ih
  | binary _ hoperator _ ihleft ihright => exact ihleft.append (.skip (Kind.isLeaf_of_operator hoperator) ihright)
  | single _ ih => exact ih

mutual

theorem DerivesStatement.writes {tokens : List Token} {statement : Statement} {levels : Nat}
    (h : DerivesStatement tokens statement levels) : Writes tokens statement.leaves := by
  match h with
  | .assign hname hequals hvalue =>
      rw [Statement.leaves]
      exact .name hname (.skip (congrArg Kind.isLeaf hequals) hvalue.writes)
  | .print hkeyword hopening hvalue hclosing =>
      rw [Statement.leaves]
      have hvalue := hvalue.writes.snoc (congrArg Kind.isLeaf hclosing)
      exact .skip (congrArg Kind.isLeaf hkeyword) (.skip (congrArg Kind.isLeaf hopening) hvalue)
  | .ifElse hkeyword hconditional => exact .skip (congrArg Kind.isLeaf hkeyword) hconditional.writes
  | .whileLoop hkeyword hcondition hbody =>
      rw [Statement.leaves]
      exact .skip (congrArg Kind.isLeaf hkeyword) (hcondition.writes.append hbody.writes)
  | .forRange hkeyword hname hinside hrange hopening hnumber hcount hclosing hbody =>
      rw [Statement.leaves]
      have hbody := Writes.skip (congrArg Kind.isLeaf hclosing) hbody.writes
      have hcount := Writes.skip (congrArg Kind.isLeaf hopening) (.number hnumber hcount hbody)
      have hrange := Writes.skip (congrArg Kind.isLeaf hinside) (.skip (congrArg Kind.isLeaf hrange) hcount)
      exact .skip (congrArg Kind.isLeaf hkeyword) (.name hname hrange)

theorem DerivesConditional.writes {tokens : List Token} {statement : Statement} {levels : Nat}
    (h : DerivesConditional tokens statement levels) : Writes tokens statement.leaves := by
  match h with
  | .intro hcondition hbody halternative =>
      rw [Statement.leaves]
      exact hcondition.writes.append (hbody.writes.append halternative.writes)

theorem DerivesAlternative.writes {tokens : List Token} {alternative : Option (List Statement)} {levels : Nat}
    (h : DerivesAlternative tokens alternative levels) : Writes tokens (alternativeLeaves alternative) := by
  match h with
  | .absent => exact .nil
  | .elseIf hkeyword hconditional =>
      rw [alternativeLeaves, blockLeaves, blockLeaves, List.append_nil]
      exact .skip (congrArg Kind.isLeaf hkeyword) hconditional.writes
  | .elseBlock hkeyword hbody =>
      rw [alternativeLeaves]
      exact .skip (congrArg Kind.isLeaf hkeyword) hbody.writes

theorem DerivesBlock.writes {tokens : List Token} {body : List Statement} {levels : Nat}
    (h : DerivesBlock tokens body levels) : Writes tokens (blockLeaves body) := by
  match h with
  | .intro hopening hbody hclosing =>
      exact .skip (congrArg Kind.isLeaf hopening) (hbody.writes.snoc (congrArg Kind.isLeaf hclosing))

theorem DerivesStatements.writes {tokens : List Token} {body : List Statement} {levels : Nat}
    (h : DerivesStatements tokens body levels) : Writes tokens (blockLeaves body) := by
  match h with
  | .nil => exact .nil
  | .cons hfirst hstatements =>
      rw [blockLeaves]
      exact hfirst.writes.append hstatements.writes

end

end Grammar

theorem writes_of_ofTokens {tokens : List Token} {program : Program} (h : Program.ofTokens tokens = .ok program) :
    Writes tokens program.leaves := by
  obtain ⟨_, hderives, _⟩ := (Grammar.fits_of_ofTokens h).derives
  exact hderives.writes.of_withoutComments

end ScriptLang
