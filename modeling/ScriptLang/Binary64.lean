/-!
# What a float denotes

Every finite float is a whole multiple of `2 ^ (-1074)`, the smallest positive one. Counted in that unit a
finite float is an integer, and so is every whole number, so floats and whole numbers are compared as
integers and nothing is ever rounded. An infinity takes the place that the next power of two would have.
-/

namespace ScriptLang

/-- What the bits of a float denote. `finite negative significand shift` is
`± significand · 2 ^ shift` units of `2 ^ (-1074)`. -/
inductive Binary64 where
  | nan
  | infinite (negative : Bool)
  | finite (negative : Bool) (significand shift : Nat)
  deriving DecidableEq

namespace Binary64

/-- The number of units in one. -/
def unitsPerOne : Nat := Nat.pow 2 1074

/-- The least significand with a leading one. -/
def leadingOne : Nat := Nat.pow 2 52

/-- The integer with the given sign and magnitude. -/
def signed (negative : Bool) (magnitude : Nat) : Int :=
  if negative then -magnitude else magnitude

/-- Splits 64 bits into a sign bit, eleven bits of exponent and 52 bits of fraction. The exponent `0`
marks the numbers without a leading one, `2047` the infinities and the values that are no number. -/
def ofBits (bits : Nat) : Binary64 :=
  let negative := bits / Nat.pow 2 63 % 2 == 1
  let exponent := bits / leadingOne % 2048
  let fraction := bits % leadingOne
  if exponent = 2047 then
    if fraction = 0 then .infinite negative else .nan
  else if exponent = 0 then .finite negative fraction 0
  else .finite negative (leadingOne + fraction) (exponent - 1)

def ofFloat (x : Float) : Binary64 :=
  ofBits x.toBits.toNat

/-- The place of a float on the line of integers, in units; an infinity stands where the significand of a
power of two with the first shift out of range would. -/
def rank? : Binary64 → Option Int
  | .nan => none
  | .infinite negative => some (signed negative (leadingOne * Nat.pow 2 2046))
  | .finite negative significand shift => some (signed negative (significand * Nat.pow 2 shift))

end Binary64

/-- The order of a whole number and a float, taken exactly; a NaN has no place in it. -/
def compareIntFloat (n : Int) (x : Float) : Option Ordering :=
  (Binary64.ofFloat x).rank?.map fun units => compare (n * Binary64.unitsPerOne) units

/-- The order of two floats; a NaN has no place in it, and both zeros are equal. -/
def compareFloats (x y : Float) : Option Ordering := do
  let left ← (Binary64.ofFloat x).rank?
  let right ← (Binary64.ofFloat y).rank?
  return compare left right

/-- Whether a float is one of the two zeros. -/
def isZeroFloat (x : Float) : Bool :=
  (Binary64.ofFloat x).rank? == some 0

end ScriptLang
