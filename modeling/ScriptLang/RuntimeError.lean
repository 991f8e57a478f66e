import ScriptLang.Operator
import ScriptLang.Value
/-!
# What can go wrong while a script runs
-/

namespace ScriptLang

inductive RuntimeError where
  | undefinedVariable (name : String)
  | divisionByZero
  | typeMismatch (operator : Operator) (left right : ValueKind)
  | negationMismatch (operand : ValueKind)
  | overflow (symbol : String)
  | integerTooLarge (value : Int64)
  deriving DecidableEq

def RuntimeError.message : RuntimeError → String
  | undefinedVariable name => s!"Variable '{name}' not defined"
  | divisionByZero => "Division by zero"
  | typeMismatch operator left right =>
    s!"Unsupported operand types for {operator.symbol}: {left.name} and {right.name}"
  | negationMismatch operand => s!"Bad operand type for unary -: {operand.name}"
  | overflow symbol => s!"Integer overflow while computing {symbol}"
  | integerTooLarge value => s!"Integer {value.toInt.repr} is too large to convert to a float"

end ScriptLang
