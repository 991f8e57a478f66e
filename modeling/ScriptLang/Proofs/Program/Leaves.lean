import ScriptLang.Program
/-!
# The leaves of a program

Names and values are the leaves of a program, at whatever depth they stand. They are listed in the order in which a
source writes them, a loop's variable and count before its body.
-/

namespace ScriptLang

/-- A name that is set or read, or a value that is written out. -/
inductive Leaf where
  | name (name : String)
  | value (value : Value)
  deriving DecidableEq

def Expr.leaves : Expr → List Leaf
  | .literal value => [.value value]
  | .var name => [.name name]
  | .negate operand => operand.leaves
  | .binary _ left right => left.leaves ++ right.leaves

mutual

def Statement.leaves : Statement → List Leaf
  | .assign name value => .name name :: value.leaves
  | .print value => value.leaves
  | .ifElse condition body alternative => condition.leaves ++ (blockLeaves body ++ alternativeLeaves alternative)
  | .whileLoop condition body => condition.leaves ++ blockLeaves body
  | .forRange name count body => .name name :: .value (.int count) :: blockLeaves body

def blockLeaves : List Statement → List Leaf
  | [] => []
  | statement :: rest => statement.leaves ++ blockLeaves rest

def alternativeLeaves : Option (List Statement) → List Leaf
  | none => []
  | some body => blockLeaves body

end

def Program.leaves (program : Program) : List Leaf :=
  blockLeaves program.statements

end ScriptLang
