import FleetConsole.Number.Binary64
import FleetConsole.Text.Numeral

namespace FleetConsole

/-- Decimal digits, the first of which stands for a multiple of `10^exponent`. -/
structure DecimalDigits where
  digits : List Char
  exponent : Int
  deriving DecidableEq, Repr

namespace Binary64

/-- Four times the units of the two ends of the interval of values that round to a positive
number. Below a power of two the numbers lie closer together. -/
def roundingEnds (x : Binary64) : Nat × Nat :=
  let step := 1<<<x.scale
  let below := if x.fractionField=0 ∧ 1<x.exponentField then step else 2*step
  (4*x.units-below,4*x.units+2*step)

/-- The ends themselves round to a number with an even significand. -/
def roundsTo (x : Binary64) (num den : Nat) : Bool :=
  let (low,high) := x.roundingEnds
  if x.significand%2=0 then decide (low*den ≤ 4*num ∧ 4*num ≤ high*den)
  else decide (low*den<4*num ∧ 4*num<high*den)

/-- The nearer of the two multiples of `num/den` around a number, if it rounds to it; else
the other one, if that does. Multiples and number are counted in units. -/
def gridPoint? (x : Binary64) (num den : Nat) : Option Nat :=
  let low := x.units*den/num
  let near := roundHalfEven (x.units*den) num
  let far := if near=low then low+1 else low
  if x.roundsTo (near*num) den then some near
  else if x.roundsTo (far*num) den then some far
  else none

/-- Exponent of the leading decimal digit of a positive number. -/
def leadingExponent (x : Binary64) : Int :=
  ((Text.decimal (x.units*Text.placeValue 324/unitsPerOne)).length : Int)-325

/-- Tries one digit more at a time. -/
def shortestFrom (x : Binary64) (lead : Int) (places : Nat) : Nat → Nat × Int
  | 0 => (0,0)
  | fuel+1 =>
    let unit : Int := lead-places
    match x.gridPoint? (Text.placeValue unit.toNat*unitsPerOne) (Text.placeValue (-unit).toNat) with
    | some n => (n,unit)
    | none => shortestFrom x lead (places+1) fuel

/-- The fewest digits that read back as the number, the nearest to it among those of that
length. Seventeen digits are always enough. -/
def shortest (x : Binary64) : DecimalDigits :=
  if x.isZero then ⟨['0'],0⟩
  else
    let (n,unit) := x.shortestFrom x.leadingExponent 0 17
    let digits := Text.decimal n
    let kept := (digits.reverse.dropWhile (fun c => c == '0')).reverse
    ⟨kept,unit+(digits.length : Int)-1⟩

end Binary64

end FleetConsole
