import ScriptLang.Value.Arithmetic
/-!
# Comparing values

Numbers are ordered by what they denote, whichever kind they have, and texts by the codes of their
characters. Values of different kinds are unequal, and only numbers and texts have an order.
-/

namespace ScriptLang

namespace Value

/-- The order of two values: `none` if their kinds have none, `some none` if a NaN takes part. -/
def order? : Value → Value → Option (Option Ordering)
  | .int a, .int b => some (some (compare a.toInt b.toInt))
  | .float x, .float y => some (compareFloats x y)
  | .int n, .float x => some (compareIntFloat n.toInt x)
  | .float x, .int n => some ((compareIntFloat n.toInt x).map Ordering.swap)
  | .string a, .string b => some (some (compare a b))
  | _, _ => none

/-- Whether two values are equal. A whole number and a float are if they denote the same number, other values of
different kinds never are, and a NaN equals nothing. -/
def equals : Value → Value → Bool
  | .int n, .float x | .float x, .int n => compareIntFloat n.toInt x == some .eq
  | .int a, .int b => a == b
  | .float x, .float y => x == y
  | .bool a, .bool b => a == b
  | .string a, .string b => a == b
  | .null, .null => true
  | _, _ => false

/-- What an ordering operator says about two values in a given order. -/
def holds (operator : Operator) (ordering : Option Ordering) : Bool :=
  match operator with
  | .less => ordering == some .lt
  | .lessEqual => ordering == some .lt || ordering == some .eq
  | .greater => ordering == some .gt
  | .greaterEqual => ordering == some .gt || ordering == some .eq
  | _ => false

/-- `left operator right` for the six comparisons; an arithmetic operator is a type mismatch here. -/
def comparison (operator : Operator) (left right : Value) : Except RuntimeError Value :=
  match operator with
  | .equal => .ok (.bool (left.equals right))
  | .notEqual => .ok (.bool (!left.equals right))
  | .less | .lessEqual | .greater | .greaterEqual =>
    match left.order? right with
    | some ordering => .ok (.bool (holds operator ordering))
    | none => .error (mismatch operator left right)
  | _ => .error (mismatch operator left right)

/-- `left operator right`. -/
def binary (operator : Operator) (left right : Value) : Except RuntimeError Value :=
  if operator.isComparison then comparison operator left right else arithmetic operator left right

end Value

end ScriptLang
