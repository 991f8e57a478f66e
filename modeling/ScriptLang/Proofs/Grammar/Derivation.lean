import ScriptLang.Grammar.Statement
/-!
# The grammar as a relation

Which tokens stand for which program, said without a cursor: every rule of the grammar is a constructor.

The last index counts levels. A derivation whose root sits at level `d` reaches down to level
`d + levels - 1`. An operator and a pair of parentheses sit one level above their operands, a statement one
level above its expression and the statements in its blocks, and an `elseif` is a conditional one level below
the one that it follows. The statements of a program sit at level one, so there `levels` is the deepest level
of all.
-/

namespace ScriptLang

/-- The order of the tiers, tightest first. -/
def Tier.rank : Tier → Nat
  | .unary => 0
  | .product => 1
  | .sum => 2
  | .comparison => 3

/-- The tier of the right operands of a tier, and of its first operand. -/
def Tier.tighter : Tier → Tier
  | .unary => .unary
  | .product => .unary
  | .sum => .product
  | .comparison => .sum

/-- The operators of a tier and the kinds of token that stand for them. -/
def Tier.operators : Tier → List (Kind × Operator)
  | .unary => []
  | .product => [(.times, .multiply), (.divide, .divide)]
  | .sum => [(.plus, .add), (.minus, .subtract)]
  | .comparison =>
    [(.equal, .equal), (.notEqual, .notEqual), (.less, .less), (.lessEqual, .lessEqual), (.greater, .greater),
      (.greaterEqual, .greaterEqual)]

/-- The rules look for the operators of the table, each one at its tier. -/
theorem Tier.operator?_eq_some_iff {tier : Tier} {kind : Kind} {operator : Operator} :
    tier.operator? kind = some operator ↔ (kind, operator) ∈ tier.operators := by
  constructor
  · intro h
    obtain ⟨hkind, htier⟩ := Option.filter_eq_some_iff.mp h
    obtain rfl : operator.tier = tier := of_decide_eq_true htier
    cases kind <;> cases hkind <;> decide
  · intro h
    have hall : ∀ rule ∈ tier.operators, tier.operator? rule.1 = some rule.2 := by cases tier <;> decide
    exact hall _ h

theorem Operator.tier_of_mem_operators {tier : Tier} {kind : Kind} {operator : Operator}
    (h : (kind, operator) ∈ tier.operators) : operator.tier = tier := by
  have hall : ∀ rule ∈ tier.operators, rule.2.tier = tier := by cases tier <;> decide
  exact hall _ h

/-- Every tier is reached from the tightest one by way of the tiers between them. -/
theorem Tier.induction {property : Tier → Prop} (unary : property .unary)
    (looser : ∀ tier, tier ≠ .unary → property tier.tighter → property tier) (tier : Tier) : property tier := by
  have hproduct : property .product := looser .product (by decide) unary
  have hsum : property .sum := looser .sum (by decide) hproduct
  cases tier with
  | unary => exact unary
  | product => exact hproduct
  | sum => exact hsum
  | comparison => exact looser .comparison (by decide) hsum

namespace Grammar

/-- The tokens are an expression of the tier. A binary tier is left recursive, so its operators group to the
left; a minus sign is followed by a signed operand, so it groups to the right. -/
inductive DerivesExpr : Tier → List Token → Expr → Nat → Prop
  | number {token : Token} {value : Value} (hkind : token.kind = .number)
      (hvalue : numberOf? token.text = some value) : DerivesExpr .unary [token] (.literal value) 1
  | string {token : Token} (hkind : token.kind = .string) :
      DerivesExpr .unary [token] (.literal (.string (literalText token.text))) 1
  | boolean {token : Token} (hkind : token.kind = .boolean) :
      DerivesExpr .unary [token] (.literal (.bool (token.text = "true"))) 1
  | null {token : Token} (hkind : token.kind = .null) : DerivesExpr .unary [token] (.literal .null) 1
  | var {token : Token} (hkind : token.kind = .identifier) : DerivesExpr .unary [token] (.var token.text) 1
  | parens {opening closing : Token} {inside : List Token} {expr : Expr} {levels : Nat}
      (hopening : opening.kind = .openParen) (hinside : DerivesExpr .comparison inside expr levels)
      (hclosing : closing.kind = .closeParen) :
      DerivesExpr .unary (opening :: (inside ++ [closing])) expr (levels + 1)
  | negate {minus : Token} {tokens : List Token} {operand : Expr} {levels : Nat}
      (hminus : minus.kind = .minus) (hoperand : DerivesExpr .unary tokens operand levels) :
      DerivesExpr .unary (minus :: tokens) (.negate operand) (levels + 1)
  | binary {tier : Tier} {operator : Operator} {token : Token} {leftTokens rightTokens : List Token}
      {left right : Expr} {leftLevels rightLevels : Nat}
      (hleft : DerivesExpr tier leftTokens left leftLevels)
      (hoperator : (token.kind, operator) ∈ tier.operators)
      (hright : DerivesExpr tier.tighter rightTokens right rightLevels) :
      DerivesExpr tier (leftTokens ++ token :: rightTokens) (.binary operator left right)
        (max leftLevels rightLevels + 1)
  | single {tier : Tier} {tokens : List Token} {expr : Expr} {levels : Nat}
      (hexpr : DerivesExpr tier.tighter tokens expr levels) : DerivesExpr tier tokens expr levels

mutual

/-- The tokens are a statement. -/
inductive DerivesStatement : List Token → Statement → Nat → Prop
  | assign {name equals : Token} {tokens : List Token} {value : Expr} {levels : Nat}
      (hname : name.kind = .identifier) (hequals : equals.kind = .assign)
      (hvalue : DerivesExpr .comparison tokens value levels) :
      DerivesStatement (name :: equals :: tokens) (.assign name.text value) (levels + 1)
  | print {keyword opening closing : Token} {tokens : List Token} {value : Expr} {levels : Nat}
      (hkeyword : keyword.kind = .printWord) (hopening : opening.kind = .openParen)
      (hvalue : DerivesExpr .comparison tokens value levels) (hclosing : closing.kind = .closeParen) :
      DerivesStatement (keyword :: opening :: (tokens ++ [closing])) (.print value) (levels + 1)
  | ifElse {keyword : Token} {tokens : List Token} {statement : Statement} {levels : Nat}
      (hkeyword : keyword.kind = .ifWord) (hconditional : DerivesConditional tokens statement levels) :
      DerivesStatement (keyword :: tokens) statement levels
  | whileLoop {keyword : Token} {conditionTokens bodyTokens : List Token} {condition : Expr}
      {body : List Statement} {conditionLevels bodyLevels : Nat} (hkeyword : keyword.kind = .whileWord)
      (hcondition : DerivesExpr .comparison conditionTokens condition conditionLevels)
      (hbody : DerivesBlock bodyTokens body bodyLevels) :
      DerivesStatement (keyword :: (conditionTokens ++ bodyTokens)) (.whileLoop condition body)
        (max conditionLevels bodyLevels + 1)
  | forRange {keyword name inside range opening number closing : Token} {bodyTokens : List Token}
      {count : Int64} {body : List Statement} {levels : Nat} (hkeyword : keyword.kind = .forWord)
      (hname : name.kind = .identifier) (hinside : inside.kind = .inWord) (hrange : range.kind = .rangeWord)
      (hopening : opening.kind = .openParen) (hnumber : number.kind = .number)
      (hcount : numberOf? number.text = some (.int count)) (hclosing : closing.kind = .closeParen)
      (hbody : DerivesBlock bodyTokens body levels) :
      DerivesStatement (keyword :: name :: inside :: range :: opening :: number :: closing :: bodyTokens)
        (.forRange name.text count body) (levels + 1)

/-- The tokens are a conditional without its first keyword. -/
inductive DerivesConditional : List Token → Statement → Nat → Prop
  | intro {conditionTokens bodyTokens alternativeTokens : List Token} {condition : Expr}
      {body : List Statement} {alternative : Option (List Statement)}
      {conditionLevels bodyLevels alternativeLevels : Nat}
      (hcondition : DerivesExpr .comparison conditionTokens condition conditionLevels)
      (hbody : DerivesBlock bodyTokens body bodyLevels)
      (halternative : DerivesAlternative alternativeTokens alternative alternativeLevels) :
      DerivesConditional (conditionTokens ++ (bodyTokens ++ alternativeTokens))
        (.ifElse condition body alternative)
        (max conditionLevels (max bodyLevels alternativeLevels) + 1)

/-- The tokens are what follows the first block of a conditional. -/
inductive DerivesAlternative : List Token → Option (List Statement) → Nat → Prop
  | absent : DerivesAlternative [] none 0
  | elseIf {keyword : Token} {tokens : List Token} {statement : Statement} {levels : Nat}
      (hkeyword : keyword.kind = .elseifWord) (hconditional : DerivesConditional tokens statement levels) :
      DerivesAlternative (keyword :: tokens) (some [statement]) levels
  | elseBlock {keyword : Token} {tokens : List Token} {body : List Statement} {levels : Nat}
      (hkeyword : keyword.kind = .elseWord) (hbody : DerivesBlock tokens body levels) :
      DerivesAlternative (keyword :: tokens) (some body) levels

/-- The tokens are statements in braces. -/
inductive DerivesBlock : List Token → List Statement → Nat → Prop
  | intro {opening closing : Token} {tokens : List Token} {body : List Statement} {levels : Nat}
      (hopening : opening.kind = .openBrace) (hbody : DerivesStatements tokens body levels)
      (hclosing : closing.kind = .closeBrace) : DerivesBlock (opening :: (tokens ++ [closing])) body levels

/-- The tokens are statements one after another, with nothing between them. -/
inductive DerivesStatements : List Token → List Statement → Nat → Prop
  | nil : DerivesStatements [] [] 0
  | cons {firstTokens tokens : List Token} {first : Statement} {statements : List Statement}
      {firstLevels levels : Nat} (hfirst : DerivesStatement firstTokens first firstLevels)
      (hstatements : DerivesStatements tokens statements levels) :
      DerivesStatements (firstTokens ++ tokens) (first :: statements) (max firstLevels levels)

end

/-- The tokens are a program. -/
def DerivesProgram (tokens : List Token) (program : Program) (levels : Nat) : Prop :=
  DerivesStatements tokens program.statements levels

/-! ### Levels and nodes -/

theorem DerivesExpr.levels_pos {tier : Tier} {tokens : List Token} {expr : Expr} {levels : Nat}
    (h : DerivesExpr tier tokens expr levels) : 0 < levels := by
  induction h with
  | single _ ih => exact ih
  | _ => omega

/-- Every node has a level of its own, and parentheses only add to them. -/
theorem DerivesExpr.height_le_levels {tier : Tier} {tokens : List Token} {expr : Expr} {levels : Nat}
    (h : DerivesExpr tier tokens expr levels) : expr.height ≤ levels := by
  induction h with
  | number | string | boolean | null | var => exact Nat.le_refl 1
  | parens _ _ _ ih => exact Nat.le_succ_of_le ih
  | negate _ _ ih => exact Nat.succ_le_succ ih
  | binary _ _ _ ihleft ihright =>
      simp only [Expr.height]
      omega
  | single _ ih => exact ih

theorem DerivesConditional.levels_pos {tokens : List Token} {statement : Statement} {levels : Nat}
    (h : DerivesConditional tokens statement levels) : 0 < levels := by
  cases h
  omega

theorem DerivesStatement.levels_pos {tokens : List Token} {statement : Statement} {levels : Nat}
    (h : DerivesStatement tokens statement levels) : 0 < levels := by
  cases h with
  | ifElse _ hconditional => exact hconditional.levels_pos
  | _ => omega

end Grammar

end ScriptLang
