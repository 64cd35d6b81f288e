import FleetConsole.Number.Binary64
import FleetConsole.Time.Calendar
import FleetConsole.Time.Stamp

namespace FleetConsole

def secondsPerDay : Nat := 86400

def nanosPerSecond : Nat := 1000000000

/-- A moment, in seconds since the start of 1970 and nanoseconds. In a leap second the
count of seconds stands still and the nanoseconds go beyond a whole second. -/
structure Instant where
  seconds : Int
  nanos : Nat
  deriving DecidableEq, Repr

namespace Instant

def date (t : Instant) : Date := Date.ofDays (t.seconds/secondsPerDay)

def secondOfDay (t : Instant) : Nat := (t.seconds%secondsPerDay).toNat

def timeOfDay (t : Instant) : TimeOfDay := TimeOfDay.ofSeconds t.seconds

def inLeapSecond (t : Instant) : Bool := decide (nanosPerSecond ≤ t.nanos)

/-- A leap second between the two times of day is one second more. -/
def leapBetween (later earlier : Instant) : Int :=
  if earlier.secondOfDay<later.secondOfDay ∧ earlier.inLeapSecond then 1
  else if later.secondOfDay<earlier.secondOfDay ∧ later.inLeapSecond then -1
  else 0

/-- Signed nanoseconds from one moment to another. -/
def nanosSince (later earlier : Instant) : Int :=
  (later.seconds-earlier.seconds+leapBetween later earlier)*nanosPerSecond+
    ((later.nanos : Int)-(earlier.nanos : Int))

/-- How long ago a moment was; no time at all if it lies ahead. -/
def ageNanos (now seen : Instant) : Nat := (now.nanosSince seen).toNat

end Instant

/-- A duration in seconds: whole seconds and the rest are rounded one by one. -/
def secondsOfNanos (nanos : Nat) : Binary64 :=
  (Binary64.ofNat (nanos/nanosPerSecond)).add
    ((Binary64.ofNat (nanos%nanosPerSecond)).div (Binary64.ofNat nanosPerSecond))

end FleetConsole
