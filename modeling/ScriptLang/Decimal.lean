/-!
# Decimal numerals

A numeral is a coefficient and a power of ten. It is laid out positionally or with an exponent; which of
the two, and how a whole number is marked, is for the format that writes it.
-/

namespace ScriptLang

/-- `coefficient · 10 ^ exponent`. -/
structure Decimal where
  coefficient : Nat
  exponent : Int
  deriving DecidableEq

namespace Decimal

def digits (d : Decimal) : List Char :=
  Nat.toDigits 10 d.coefficient

/-- The power of ten of the leading digit. -/
def leadingPower (d : Decimal) : Int :=
  d.digits.length - 1 + d.exponent

/-- Digits with the decimal point at its place, and no point in a whole number. -/
def positional (d : Decimal) : List Char :=
  match d.exponent with
  | .ofNat zeros => d.digits ++ List.replicate zeros '0'
  | .negSucc places =>
    let wholeDigits := d.digits.length - (places + 1)
    if wholeDigits = 0 then
      '0' :: '.' :: List.replicate (places + 1 - d.digits.length) '0' ++ d.digits
    else
      d.digits.take wholeDigits ++ '.' :: d.digits.drop wholeDigits

/-- One digit, the others after a point, and the power of ten with its sign. -/
def scientific (d : Decimal) : List Char :=
  let fraction := match d.digits.drop 1 with
    | [] => []
    | rest => '.' :: rest
  let sign := if d.leadingPower < 0 then '-' else '+'
  d.digits.take 1 ++ fraction ++ 'e' :: sign :: Nat.toDigits 10 d.leadingPower.natAbs

end Decimal

end ScriptLang
