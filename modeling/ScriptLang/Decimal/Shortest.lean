import ScriptLang.Binary64
import ScriptLang.Decimal
/-!
# The shortest numeral of a float

The reals that round to a float form an interval around it, which reaches half way to its neighbours and
holds its ends exactly if the significand is even. The shortest numeral is found on the coarsest decimal
grid that meets the interval: there the float's neighbours on the grid are tried, and the nearer one wins.
Lengths are compared as natural numbers, in units of `2 ^ (-1074) · 10 ^ (-324)`.
-/

namespace ScriptLang

/-- Where a float goes that is half way between two shortest numerals. -/
inductive Tie where
  | up
  | even
  deriving DecidableEq

namespace Decimal

/-- The finest grid ever needed has the step `10 ^ (-324)`; a grid is named by how often its step is ten
times coarser than that. -/
def finestPower : Int := -324

/-- The coefficient, on the grid with this step, of the numeral nearest to the float
`significand · 2 ^ shift`, if one reads back as that float. Below a power of two the floats are twice as
dense, so there the interval reaches half as far. -/
def onGrid? (tie : Tie) (significand shift step : Nat) : Option Nat :=
  let unit := Nat.pow 2 shift * Nat.pow 10 324
  let spacing := Nat.pow 10 step * Binary64.unitsPerOne
  let coefficient := significand * unit / spacing
  let below := significand * unit % spacing
  let above := spacing - below
  let within (length reach : Nat) : Bool :=
    if significand % 2 = 0 then length ≤ reach else length < reach
  let narrow := significand = Binary64.leadingOne ∧ 0 < shift
  let lowerFits := within (if narrow then 4 * below else 2 * below) unit
  let upperFits := within (2 * above) unit
  let nearer := match compare below above with
    | .lt => coefficient
    | .gt => coefficient + 1
    | .eq => match tie with
      | .up => coefficient + 1
      | .even => coefficient + coefficient % 2
  match lowerFits, upperFits with
  | true, true => some nearer
  | true, false => some coefficient
  | false, true => some (coefficient + 1)
  | false, false => none

/-- The numeral on the coarsest grid, from the given one down, that reads back as the float. The finest
grid always has one. -/
def coarsest (tie : Tie) (significand shift : Nat) : Nat → Decimal
  | 0 => ⟨(onGrid? tie significand shift 0).getD 0, finestPower⟩
  | step + 1 =>
    match onGrid? tie significand shift (step + 1) with
    | some coefficient => ⟨coefficient, finestPower + (step + 1)⟩
    | none => coarsest tie significand shift step

/-- The shortest numeral that reads back as the float `significand · 2 ^ shift`, and of these the nearest.
The search starts at a grid whose step is more than twice the float, where nothing reads back: the
logarithm of two is less than `31 / 100`. -/
def shortest (tie : Tie) (significand shift : Nat) : Decimal :=
  if significand = 0 then ⟨0, 0⟩
  else coarsest tie significand shift ((significand * Nat.pow 2 shift).log2 * 31 / 100 + 3)

end Decimal

end ScriptLang
