import FleetConsole.RateLimit

namespace FleetConsole

/-- Bytes let through in the latest ticks, newest tick first. They stay below 2^64, as quotas do. -/
structure RateWindow where
  quota : UInt64
  slices : List Nat
  deriving DecidableEq

namespace RateWindow

def sliceCount : Nat := 6

def new (quota : UInt64) : RateWindow := ⟨quota,List.replicate sliceCount 0⟩

def setQuota (w : RateWindow) (quota : UInt64) : RateWindow := { w with quota := quota }

def used (w : RateWindow) : Nat := w.slices.foldr (fun bytes total => bytes+total) 0

def remaining (w : RateWindow) : Nat := w.quota.toNat-w.used

def record (w : RateWindow) (accepted : Nat) : RateWindow :=
  match w.slices with
  | [] => w
  | newest :: older => { w with slices := (newest+accepted) :: older }

/-- Opens a new slice; the oldest one no longer counts. -/
def rotate (w : RateWindow) : RateWindow := { w with slices := 0 :: w.slices.dropLast }

end RateWindow

end FleetConsole
