import ScriptLang.Binary64.Nearest
import ScriptLang.Decimal
/-!
# Reading numerals

A whole numeral is a sign and digits, a fractional one has a point and may have an exponent. Reading a
fractional numeral rounds its exact value once, to the nearest float.
-/

namespace ScriptLang

/-- The whole number, if 64 bits hold it. -/
def int64? (n : Int) : Option Int64 :=
  if Int64.minValue.toInt ≤ n ∧ n ≤ Int64.maxValue.toInt then some (Int64.ofInt n) else none

/-- Splits off a leading sign and tells whether it is a minus. -/
def splitSign : List Char → Bool × List Char
  | '-' :: rest => (true, rest)
  | '+' :: rest => (false, rest)
  | rest => (false, rest)

/-- A sign, and digits to the end. -/
def readInt? (text : List Char) : Option Int :=
  let (negative, digits) := splitSign text
  if !digits.isEmpty && digits.all Char.isDigit then
    some (Binary64.signed negative (Nat.ofDigitChars 10 digits 0))
  else none

/-- An exponent mark with its number, or nothing at all. -/
def readExponent? : List Char → Option Int
  | [] => some 0
  | mark :: rest => if mark = 'e' ∨ mark = 'E' then readInt? rest else none

namespace Decimal

/-- Digits around a point, at least one of them, and an exponent. -/
def read? (text : List Char) : Option Decimal :=
  let whole := text.takeWhile Char.isDigit
  match text.dropWhile Char.isDigit with
  | '.' :: rest => do
    let fraction := rest.takeWhile Char.isDigit
    let exponent ← readExponent? (rest.dropWhile Char.isDigit)
    if whole.isEmpty && fraction.isEmpty then none
    else some ⟨Nat.ofDigitChars 10 (whole ++ fraction) 0, exponent - fraction.length⟩
  | _ => none

/-- The float nearest to a numeral. What has its leading digit beyond every float is an infinity or a
zero, and no power of ten is computed for it. -/
def nearest (negative : Bool) (d : Decimal) : Float :=
  if d.coefficient = 0 ∨ d.leadingPower < -330 then Binary64.pack negative 0
  else if 310 < d.leadingPower then Binary64.pack negative Binary64.infinityBits
  else nearestFloat negative (d.coefficient * Nat.pow 10 d.exponent.toNat)
    (Nat.pow 10 (-d.exponent).toNat)

end Decimal

/-- The float that a fractional numeral stands for. -/
def readFloat? (text : List Char) : Option Float :=
  let (negative, numeral) := splitSign text
  (Decimal.read? numeral).map (Decimal.nearest negative)

end ScriptLang
