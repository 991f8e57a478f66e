import ScriptLang.Token
/-!
# Binary operators
-/

namespace ScriptLang

inductive Operator where
  | add
  | subtract
  | multiply
  | divide
  | equal
  | notEqual
  | less
  | lessEqual
  | greater
  | greaterEqual
  deriving DecidableEq

namespace Operator

def symbol : Operator → String
  | add => "+"
  | subtract => "-"
  | multiply => "*"
  | divide => "/"
  | equal => "=="
  | notEqual => "!="
  | less => "<"
  | lessEqual => "<="
  | greater => ">"
  | greaterEqual => ">="

def isComparison : Operator → Bool
  | add | subtract | multiply | divide => false
  | equal | notEqual | less | lessEqual | greater | greaterEqual => true

/-- The operator with this symbol. -/
def ofSymbol? (text : String) : Option Operator :=
  [add, subtract, multiply, divide, equal, notEqual, less, lessEqual, greater, greaterEqual].find?
    (·.symbol == text)

/-- The operator that a token of this kind stands for. -/
def ofKind? : Kind → Option Operator
  | .plus => some add
  | .minus => some subtract
  | .times => some multiply
  | .divide => some divide
  | .equal => some equal
  | .notEqual => some notEqual
  | .less => some less
  | .lessEqual => some lessEqual
  | .greater => some greater
  | .greaterEqual => some greaterEqual
  | _ => none

end Operator

end ScriptLang
