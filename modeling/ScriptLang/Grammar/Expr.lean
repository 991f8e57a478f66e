import ScriptLang.Decimal.Read
import ScriptLang.Grammar.Rule
import ScriptLang.Program
import ScriptLang.Text.Escape
/-!
# Expressions

Expressions have four tiers: comparisons of sums of products of signed operands. The binary tiers group to
the left, a minus sign groups to the right, and parentheses leave no trace.

The levels of nesting are limited. A rule is given the `room` that is left for what it reads, its own level
included: the operands of an operator and the inside of parentheses have one level less. The left operand of
an operator is read before the operator is seen, so its room is checked by height once the node is there.
-/

namespace ScriptLang

/-- How tightly an expression binds, tightest first. -/
inductive Tier where
  | unary
  | product
  | sum
  | comparison
  deriving DecidableEq

def Operator.tier : Operator → Tier
  | .multiply | .divide => .product
  | .add | .subtract => .sum
  | .equal | .notEqual | .less | .lessEqual | .greater | .greaterEqual => .comparison

/-- The operator of this tier that a kind of token stands for. -/
def Tier.operator? (tier : Tier) (kind : Kind) : Option Operator :=
  (Operator.ofKind? kind).filter (·.tier = tier)

namespace Grammar

/-- The number that a token's text stands for: a float if it has a point, a whole number otherwise. -/
def numberOf? (text : String) : Option Value :=
  if text.toList.contains '.' then (readFloat? text.toList).map .float
  else ((readInt? text.toList).bind int64?).map .int

def number (token : Token) : Rule Value :=
  match numberOf? token.text with
  | some value => return value
  | none => throw (.literalTooLarge token)

/-- A literal, a variable, or an expression in parentheses. -/
def primary (below : Tier → Rule Expr) : Rule Expr := do
  let token ← Rule.next
  match token.kind with
  | .number => return .literal (← number token)
  | .string => return .literal (.string (literalText token.text))
  | .boolean => return .literal (.bool (token.text = "true"))
  | .null => return .literal .null
  | .identifier => return .var token.text
  | .openParen =>
    let inside ← below .comparison
    let _ ← Rule.expect .closeParen
    return inside
  | _ => throw (.unexpectedToken token)

/-- A primary expression behind any number of minus signs. -/
def unary (below : Tier → Rule Expr) : Rule Expr := do
  match ← Rule.takeIf fun kind => if kind = .minus then some () else none with
  | some _ => return .negate (← below .unary)
  | none => primary below

/-- The operators of a tier that follow a left operand, each with its right operand. Every node is higher
than the one before, so there cannot be more of them than there is room. -/
def chain (room : Nat) (tier : Tier) (operand : Rule Expr) : Nat → Expr → Rule Expr
  | 0, left => do
    match ← Rule.takeIf tier.operator? with
    | none => return left
    | some (_, token) =>
      let _ ← operand
      throw (.nestingTooDeep token)
  | steps + 1, left => do
    match ← Rule.takeIf tier.operator? with
    | none => return left
    | some (operator, token) =>
      let right ← operand
      let node := Expr.binary operator left right
      if node.height ≤ room then chain room tier operand steps node
      else throw (.nestingTooDeep token)

def product (room : Nat) (below : Tier → Rule Expr) : Rule Expr := do
  chain room .product (below .unary) room (← unary below)

def sum (room : Nat) (below : Tier → Rule Expr) : Rule Expr := do
  chain room .sum (below .product) room (← product room below)

def comparison (room : Nat) (below : Tier → Rule Expr) : Rule Expr := do
  chain room .comparison (below .sum) room (← sum room below)

/-- The expressions of a tier, built from those with one level less. -/
def tiers (room : Nat) (below : Tier → Rule Expr) : Tier → Rule Expr
  | .unary => unary below
  | .product => product room below
  | .sum => sum room below
  | .comparison => comparison room below

/-- The expressions of a tier for which there is this much room. -/
def expr : Nat → Tier → Rule Expr
  | 0, _ => Rule.tooDeep
  | room + 1, tier => tiers (room + 1) (expr room) tier

end Grammar

end ScriptLang
