import ScriptLang.Operator
import ScriptLang.Value
/-!
# Programs

A program is a list of statements. An `elseif` is not a construct of its own: it is a conditional that
stands alone in the alternative of another.
-/

namespace ScriptLang

inductive Expr where
  | literal (value : Value)
  | var (name : String)
  | negate (operand : Expr)
  | binary (operator : Operator) (left right : Expr)
  deriving DecidableEq

/-- The number of nodes on the longest way down. -/
def Expr.height : Expr → Nat
  | .literal _ => 1
  | .var _ => 1
  | .negate operand => operand.height + 1
  | .binary _ left right => max left.height right.height + 1

inductive Statement where
  | assign (name : String) (value : Expr)
  | print (value : Expr)
  | ifElse (condition : Expr) (body : List Statement) (alternative : Option (List Statement))
  | whileLoop (condition : Expr) (body : List Statement)
  | forRange (name : String) (count : Int64) (body : List Statement)

/-- The expression that a statement evaluates first, if it evaluates one. -/
def Statement.expression? : Statement → Option Expr
  | .assign _ value => some value
  | .print value => some value
  | .ifElse condition _ _ => some condition
  | .whileLoop condition _ => some condition
  | .forRange _ _ _ => none

structure Program where
  statements : List Statement

end ScriptLang
