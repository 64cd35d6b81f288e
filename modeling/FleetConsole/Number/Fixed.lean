import FleetConsole.Number.Binary64
import FleetConsole.Text.Numeral

namespace FleetConsole

/-- A number that is not negative, with a fixed count of decimal places; a half goes to the
even neighbour of the exact value. -/
def Binary64.fixed (places : Nat) (x : Binary64) : List Char :=
  if x.isNaN then "NaN".toList
  else if x.isInfinite then "inf".toList
  else
    let one := Text.placeValue places
    let n := roundHalfEven (x.units*one) unitsPerOne
    Text.decimal (n/one) ++ '.' :: Text.padded places (n%one)

end FleetConsole
