import ScriptLang.Binary64
/-!
# The nearest float

A positive ratio is rounded once: the quotient by the right power of two is taken to the nearest whole
number, a tie going to the even one. The bits of the result count the floats from zero up, so a quotient
that is rounded up to the next power of two carries into the exponent by itself.
-/

namespace ScriptLang

/-- `numerator / denominator` to the nearest whole number, a tie going to the even one. -/
def roundDiv (numerator denominator : Nat) : Nat :=
  let quotient := numerator / denominator
  match compare (2 * (numerator % denominator)) denominator with
  | .lt => quotient
  | .eq => quotient + quotient % 2
  | .gt => quotient + 1

namespace Binary64

/-- The bits of positive infinity. -/
def infinityBits : Nat := 2047 * leadingOne

/-- The bits of the float nearest to `numerator / denominator`, without a sign. The shift leaves a
quotient of at most 53 bits, and is zero for the numbers near zero. -/
def nearestBits (numerator denominator : Nat) : Nat :=
  let units := numerator * unitsPerOne
  let shift := (units / denominator).log2 - 52
  min (shift * leadingOne + roundDiv units (denominator * Nat.pow 2 shift)) infinityBits

/-- The float with the given sign and the remaining 63 bits. -/
def pack (negative : Bool) (bits : Nat) : Float :=
  Float.ofBits (UInt64.ofNat (if negative then Nat.pow 2 63 + bits else bits))

end Binary64

/-- The float nearest to `± numerator / denominator`. -/
def nearestFloat (negative : Bool) (numerator denominator : Nat) : Float :=
  Binary64.pack negative (Binary64.nearestBits numerator denominator)

/-- The float nearest to a whole number. -/
def nearestFloatOfInt (n : Int) : Float :=
  nearestFloat (n < 0) n.natAbs 1

/-- The whole number as a float. Beyond `2 ^ 53` neighbouring floats are further apart than neighbouring
whole numbers, so a larger number is refused and not rounded. -/
def floatOfInt? (n : Int) : Option Float :=
  if n.natAbs ≤ Nat.pow 2 53 then some (nearestFloatOfInt n) else none

end ScriptLang
