import FleetConsole.Number.Binary64
import FleetConsole.Text.Numeral

namespace FleetConsole.Binary64

/-- The largest power of ten among the numbers. -/
def topPower : Nat := 308

def tenPower (e : Nat) : Binary64 := ofNat (Text.placeValue e)

/-- Divides by a power of ten, in steps that are numbers themselves. -/
def divideByTens (x : Binary64) (e : Nat) : Binary64 :=
  if e ≤ topPower then x.div (tenPower e)
  else if x.isZero then x
  else divideByTens (x.div (tenPower topPower)) (e-topPower)
termination_by e
decreasing_by simp only [topPower] at *; omega

/-- The number for `significand*10^exponent`, none where it would be infinite. Significand and
power are rounded first, so the result can be one step off the nearest number. -/
def ofParts? (significand : Nat) (exponent : Int) : Option Binary64 :=
  let x := ofNat significand
  if exponent<0 then some (x.divideByTens (-exponent).toNat)
  else if exponent.toNat ≤ topPower then
    let y := x.mul (tenPower exponent.toNat)
    if y.isInfinite then none else some y
  else if x.isZero then some x
  else none

end FleetConsole.Binary64
