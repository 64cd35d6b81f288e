import FleetConsole.Text.Numeral

namespace FleetConsole

structure TimeOfDay where
  hour : Nat
  minute : Nat
  second : Nat
  deriving DecidableEq, Repr

/-- The time of day of a count of seconds from some midnight, before or after it. -/
def TimeOfDay.ofSeconds (seconds : Int) : TimeOfDay :=
  let day := (seconds%86400).toNat
  ⟨day/3600,day/60%60,day%60⟩

/-- What console lines begin with: a time of day, or a mask of the same width where the
output must not depend on the clock. -/
inductive Stamp where
  | at (time : TimeOfDay)
  | masked
  deriving DecidableEq, Repr

def Stamp.text : Stamp → List Char
  | .at time =>
    '[' :: Text.padded 2 time.hour ++ ':' :: Text.padded 2 time.minute ++ ':' ::
      Text.padded 2 time.second++[']',' ']
  | .masked => "[--:--:--] ".toList

end FleetConsole
