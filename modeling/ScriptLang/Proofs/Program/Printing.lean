import ScriptLang.Proofs.Grammar.Derivation
import ScriptLang.Proofs.Text.Literal
import ScriptLang.Proofs.Token.Layout
/-!
# Printing a program

Every program has a canonical layout: one line for each statement and each closing brace, one blank between
the parts of a line, and parentheses only where the tiers ask for them. The left operand of an operator is
printed for the operator's own tier and the right one for the next tighter, so operators that group to the
left need no parentheses.

`levels` counts what the layout nests: statements, `elseif` clauses, operators and parentheses.
-/

namespace ScriptLang

/-! ### Expressions -/

/-- The kind of token that stands for an operator. -/
def Operator.kind : Operator → Kind
  | .add => .plus
  | .subtract => .minus
  | .multiply => .times
  | .divide => .divide
  | .equal => .equal
  | .notEqual => .notEqual
  | .less => .less
  | .lessEqual => .lessEqual
  | .greater => .greater
  | .greaterEqual => .greaterEqual

/-- The tier that an operator belongs to. -/
def Operator.binding : Operator → Tier
  | .multiply | .divide => .product
  | .add | .subtract => .sum
  | .equal | .notEqual | .less | .lessEqual | .greater | .greaterEqual => .comparison

theorem Operator.mem_operators_binding (operator : Operator) :
    (operator.kind, operator) ∈ operator.binding.operators := by
  cases operator <;> decide

def Value.mark : Value → Mark
  | .int value => .lexeme ⟨.number, digitsOf value⟩
  | .float value => .float value
  | .bool true => .fixed .boolean "true"
  | .bool false => .fixed .boolean "false"
  | .string text => .lexeme ⟨.string, Escape.quoted text⟩
  | .null => .fixed .null "null"

def Mark.name (name : String) : Mark := .lexeme ⟨.identifier, name.toList⟩

namespace Expr

/-- The layout of an expression where one of the tier is expected. -/
def marks : Expr → Tier → List Mark
  | .literal value, _ => [value.mark]
  | .var name, _ => [.name name]
  | .negate operand, _ => .fixed .minus "-" :: operand.marks .unary
  | .binary operator left right, tier =>
    let inside := left.marks operator.binding ++
      .blank ' ' :: .fixed operator.kind operator.symbol :: .blank ' ' :: right.marks operator.binding.tighter
    if tier.rank < operator.binding.rank then .fixed .openParen "(" :: (inside ++ [.fixed .closeParen ")"])
    else inside

/-- The levels of nesting in the layout of an expression. -/
def levels : Expr → Tier → Nat
  | .literal _, _ => 1
  | .var _, _ => 1
  | .negate operand, _ => operand.levels .unary + 1
  | .binary operator left right, tier =>
    let inside := max (left.levels operator.binding) (right.levels operator.binding.tighter) + 1
    if tier.rank < operator.binding.rank then inside + 1 else inside

end Expr

/-! ### Statements -/

namespace Mark

/-- The lines of a block, in braces. -/
def braces (lines : List Mark) : List Mark :=
  .fixed .openBrace "\x7b" :: (lines ++ [.blank '\n', .fixed .closeBrace "\x7d"])

/-- A conditional behind its keyword. -/
def conditional (condition block alternative : List Mark) : List Mark :=
  .blank ' ' :: (condition ++ .blank ' ' :: (block ++ alternative))

end Mark

mutual

/-- The layout of a statement. -/
def Statement.marks : Statement → List Mark
  | .assign name value =>
    .name name :: .blank ' ' :: .fixed .assign "=" :: .blank ' ' :: value.marks .comparison
  | .print value =>
    .fixed .printWord "print" :: .fixed .openParen "(" ::
      (value.marks .comparison ++ [.fixed .closeParen ")"])
  | .ifElse condition body alternative =>
    .fixed .ifWord "if" ::
      Mark.conditional (condition.marks .comparison) (Mark.braces (lineMarks body)) (alternativeMarks alternative)
  | .whileLoop condition body =>
    .fixed .whileWord "while" :: .blank ' ' ::
      (condition.marks .comparison ++ .blank ' ' :: Mark.braces (lineMarks body))
  | .forRange name count body =>
    .fixed .forWord "for" :: .blank ' ' :: .name name :: .blank ' ' :: .fixed .inWord "in" :: .blank ' ' ::
      .fixed .rangeWord "range" :: .fixed .openParen "(" :: .lexeme ⟨.number, digitsOf count⟩ ::
      .fixed .closeParen ")" :: .blank ' ' :: Mark.braces (lineMarks body)

/-- A new line for each statement. -/
def lineMarks : List Statement → List Mark
  | [] => []
  | statement :: rest => .blank '\n' :: (statement.marks ++ lineMarks rest)

/-- What follows the first block of a conditional. A conditional that stands alone is an `elseif`. -/
def alternativeMarks : Option (List Statement) → List Mark
  | none => []
  | some [.ifElse condition body alternative] =>
    .blank ' ' :: .fixed .elseifWord "elseif" ::
      Mark.conditional (condition.marks .comparison) (Mark.braces (lineMarks body)) (alternativeMarks alternative)
  | some body => .blank ' ' :: .fixed .elseWord "else" :: .blank ' ' :: Mark.braces (lineMarks body)

end

mutual

/-- The levels of nesting in the layout of a statement, its own among them. -/
def Statement.levels : Statement → Nat
  | .assign _ value => value.levels .comparison + 1
  | .print value => value.levels .comparison + 1
  | .ifElse condition body alternative =>
    max (condition.levels .comparison) (max (blockLevels body) (alternativeLevels alternative)) + 1
  | .whileLoop condition body => max (condition.levels .comparison) (blockLevels body) + 1
  | .forRange _ _ body => blockLevels body + 1

def blockLevels : List Statement → Nat
  | [] => 0
  | statement :: rest => max statement.levels (blockLevels rest)

/-- An `elseif` sits one level below the conditional that it follows, as a statement of a block does. -/
def alternativeLevels : Option (List Statement) → Nat
  | none => 0
  | some body => blockLevels body

end

/-! ### Programs -/

namespace Program

/-- The layout of a program, with one new line between statements. -/
def marks (program : Program) : List Mark :=
  match program.statements with
  | [] => []
  | first :: rest => first.marks ++ lineMarks rest

def levels (program : Program) : Nat :=
  blockLevels program.statements

/-- The floats of a program, in the order in which they are printed. -/
def floats (program : Program) : List Float :=
  program.marks.filterMap Mark.float?

/-- The canonical text of a program, with these numerals for its floats. -/
def text (program : Program) (numerals : List String) : String :=
  String.ofList (Mark.fill program.marks numerals)

end Program

/-! ### Programs that can be printed

No text reads as a negative literal or as a variable that is called like a keyword, so these have no canonical
text. Floats are covered by their numerals. -/

/-- A word that is no keyword. -/
structure IsName (name : String) : Prop where
  word : Pattern.identifier.Matches name.toList
  noKeyword : name ∉ Kind.keywords.map Prod.snd

def Expr.Printable : Expr → Prop
  | .literal (.int value) => 0 ≤ value.toInt
  | .literal _ => True
  | .var name => IsName name
  | .negate operand => operand.Printable
  | .binary _ left right => left.Printable ∧ right.Printable

mutual

def Statement.Printable : Statement → Prop
  | .assign name value => IsName name ∧ value.Printable
  | .print value => value.Printable
  | .ifElse condition body alternative =>
    condition.Printable ∧ BlockPrintable body ∧ AlternativePrintable alternative
  | .whileLoop condition body => condition.Printable ∧ BlockPrintable body
  | .forRange name count body => IsName name ∧ 0 ≤ count.toInt ∧ BlockPrintable body

def BlockPrintable : List Statement → Prop
  | [] => True
  | statement :: rest => statement.Printable ∧ BlockPrintable rest

def AlternativePrintable : Option (List Statement) → Prop
  | none => True
  | some body => BlockPrintable body

end

def Program.Printable (program : Program) : Prop :=
  BlockPrintable program.statements

end ScriptLang
