import FleetConsole.Time.Instant

namespace FleetConsole

/-- How current a deputy's last word is. -/
inductive Band where
  | unknown
  | fresh
  | warning
  | stale
  deriving DecidableEq, Repr

namespace Band

def name : Band → String
  | .unknown => "unknown"
  | .fresh => "fresh"
  | .warning => "warning"
  | .stale => "stale"

def needsAttention (band : Band) : Bool := band != .fresh

end Band

/-- Ages in nanoseconds up to which a deputy is fresh, and not yet stale. -/
structure Thresholds where
  warnAfter : Nat
  staleAfter : Nat
  deriving DecidableEq, Repr

namespace Thresholds

def nanosPerMilli : Nat := 1000000

def ofMillis (warnAfter staleAfter : Nat) : Thresholds :=
  ⟨warnAfter*nanosPerMilli,staleAfter*nanosPerMilli⟩

def standard : Thresholds := ofMillis 2000 5000

/-- An age equal to a threshold is still within it. -/
def classify (t : Thresholds) : Option Nat → Band
  | none => .unknown
  | some age =>
    if age ≤ t.warnAfter then .fresh
    else if age ≤ t.staleAfter then .warning
    else .stale

end Thresholds

end FleetConsole
