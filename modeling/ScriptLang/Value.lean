import ScriptLang.Decimal.Shortest
/-!
# Values

A script computes with whole numbers of 64 bits, floats, truth values, texts and `null`. Every value has a
text, which `print` shows, and counts as true or false in a condition.
-/

namespace ScriptLang

inductive Value where
  | int (value : Int64)
  | float (value : Float)
  | bool (value : Bool)
  | string (value : String)
  | null
  deriving DecidableEq

/-- The kinds of values, as messages name them. -/
inductive ValueKind where
  | int
  | float
  | bool
  | string
  | null
  deriving DecidableEq

def ValueKind.name : ValueKind → String
  | int => "int"
  | float => "float"
  | bool => "bool"
  | string => "string"
  | null => "null"

/-- The text of a float. A whole one has all its digits and `.0`; any other has the shortest digits that
read back, never an exponent, and of two shortest numerals that are equally near the larger one. -/
def floatText (x : Float) : String :=
  match Binary64.ofFloat x with
  | .nan => "NaN"
  | .infinite negative => if negative then "-inf" else "inf"
  | .finite negative significand shift =>
    let units := significand * Nat.pow 2 shift
    let numeral :=
      if units % Binary64.unitsPerOne = 0 then
        Nat.toDigits 10 (units / Binary64.unitsPerOne) ++ ['.', '0']
      else (Decimal.shortest .up significand shift).positional
    String.ofList (if negative then '-' :: numeral else numeral)

namespace Value

def kind : Value → ValueKind
  | .int _ => .int
  | .float _ => .float
  | .bool _ => .bool
  | .string _ => .string
  | .null => .null

def isNumber : Value → Bool
  | .int _ => true
  | .float _ => true
  | _ => false

/-- Zeros, the empty text, `false` and `null` count as false; a NaN counts as true. -/
def truth : Value → Bool
  | .int n => n ≠ 0
  | .float x => !isZeroFloat x
  | .bool b => b
  | .string text => text ≠ ""
  | .null => false

/-- The text that `print` shows. -/
def text : Value → String
  | .int n => n.toInt.repr
  | .float x => floatText x
  | .bool b => if b then "true" else "false"
  | .string text => text
  | .null => "null"

end Value

end ScriptLang
