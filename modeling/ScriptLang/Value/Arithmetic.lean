import ScriptLang.Decimal.Read
import ScriptLang.RuntimeError
/-!
# Arithmetic on values

Whole numbers are added, subtracted and multiplied exactly, and a result that 64 bits do not hold is an
error. A quotient is always a float. Where a float meets a whole number, the whole number must be a float
exactly. A divisor that is zero is an error whatever stands before it.
-/

namespace ScriptLang

namespace Value

/-- The value as a float; `none` for what is no number. -/
def toFloat? : Value → Except RuntimeError (Option Float)
  | .float x => .ok (some x)
  | .int n =>
    match floatOfInt? n.toInt with
    | some x => .ok (some x)
    | none => .error (.integerTooLarge n)
  | _ => .ok none

def isZero : Value → Bool
  | .int n => n = 0
  | .float x => isZeroFloat x
  | _ => false

def mismatch (operator : Operator) (left right : Value) : RuntimeError :=
  .typeMismatch operator left.kind right.kind

/-- The whole number, or an overflow of the operation with this symbol. -/
def ofExact (symbol : String) (n : Int) : Except RuntimeError Value :=
  match int64? n with
  | some result => .ok (.int result)
  | none => .error (.overflow symbol)

def intArithmetic (operator : Operator) (left right : Int64) : Except RuntimeError Value :=
  match operator with
  | .add => ofExact "+" (left.toInt + right.toInt)
  | .subtract => ofExact "-" (left.toInt - right.toInt)
  | .multiply => ofExact "*" (left.toInt * right.toInt)
  | .divide => .ok (.float (nearestFloatOfInt left.toInt / nearestFloatOfInt right.toInt))
  | _ => .error (mismatch operator (.int left) (.int right))

def floatArithmetic (operator : Operator) (left right : Float) : Except RuntimeError Value :=
  match operator with
  | .add => .ok (.float (left + right))
  | .subtract => .ok (.float (left - right))
  | .multiply => .ok (.float (left * right))
  | .divide => .ok (.float (left / right))
  | _ => .error (mismatch operator (.float left) (.float right))

/-- `left operator right` for the operators `+`, `-`, `*` and `/`; a comparison is a type mismatch here. -/
def arithmetic (operator : Operator) (left right : Value) : Except RuntimeError Value :=
  if operator = .divide ∧ right.isZero then .error .divisionByZero
  else
    match left, right with
    | .int a, .int b => intArithmetic operator a b
    | .string a, .string b =>
      if operator = .add then .ok (.string (a ++ b)) else .error (mismatch operator left right)
    | _, _ =>
      if left.isNumber && right.isNumber then do
        match ← left.toFloat?, ← right.toFloat? with
        | some a, some b => floatArithmetic operator a b
        | _, _ => .error (mismatch operator left right)
      else .error (mismatch operator left right)

def negate : Value → Except RuntimeError Value
  | .int n => ofExact "-" (-n.toInt)
  | .float x => .ok (.float (-x))
  | operand => .error (.negationMismatch operand.kind)

end Value

end ScriptLang
