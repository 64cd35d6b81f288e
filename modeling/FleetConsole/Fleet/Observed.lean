import FleetConsole.Deputy.Freshness
import FleetConsole.Event.Basic

namespace FleetConsole

structure Sighting where
  commands : Nat
  /-- When the last heartbeat came in, in nanoseconds of a steady clock. -/
  lastHeard : Option Nat
  deriving DecidableEq, Repr

/-- The deputies of a fleet as far as events show them. -/
structure ObservedFleet where
  sightings : SortedMap String Sighting
  forgetAfter : Nat
  deriving DecidableEq

namespace ObservedFleet

def forgetFactor : Nat := 3

/-- A silent deputy is forgotten after a multiple of the age at which it counts as stale. -/
def new (thresholds : Thresholds) : ObservedFleet :=
  ⟨SortedMap.empty,forgetFactor*thresholds.staleAfter⟩

def sighting (f : ObservedFleet) (deputy : String) : Sighting :=
  (f.sightings.get? deputy).getD ⟨0,none⟩

def put (f : ObservedFleet) (deputy : String) (s : Sighting) : ObservedFleet :=
  { f with sightings := f.sightings.insert deputy s }

/-- A removal brings no deputy into sight. -/
def observe (f : ObservedFleet) (now : Nat) : Event → ObservedFleet
  | .heartbeat beat =>
    f.put beat.deputy { f.sighting beat.deputy with lastHeard := some now }
  | .lifecycle (.commandAdded command) =>
    let s := f.sighting command.id.deputy
    f.put command.id.deputy { s with commands := s.commands+1 }
  | .lifecycle (.commandRemoved command) =>
    if f.sightings.contains command.id.deputy then
      let s := f.sighting command.id.deputy
      f.put command.id.deputy { s with commands := s.commands-1 }
    else f
  | _ => f

def isLive (forgetAfter now : Nat) (s : Sighting) : Bool :=
  decide (0<s.commands) || s.lastHeard.any (fun heard => decide (now-heard ≤ forgetAfter))

/-- Names the live deputies and forgets the others. -/
def liveDeputies (f : ObservedFleet) (now : Nat) : List String × ObservedFleet :=
  let kept := f.sightings.filter (fun _ s => isLive f.forgetAfter now s)
  (kept.keys,{ f with sightings := kept })

end ObservedFleet

end FleetConsole
