import FleetConsole.Deputy.Freshness
import FleetConsole.Event.Basic
import FleetConsole.Number.Fixed
import FleetConsole.SortedMap

namespace FleetConsole

/-- What is known about one deputy. -/
structure Deputy where
  load : Binary64
  lastUpdate : Option Instant
  pendingRemoval : Bool
  deriving DecidableEq, Repr

namespace Deputy

def unseen : Deputy := ⟨Binary64.zero,none,false⟩

def age (d : Deputy) (now : Instant) : Option Nat := d.lastUpdate.map now.ageNanos

end Deputy

/-- A deputy as it is shown. -/
structure DeputyRow where
  name : String
  band : Band
  ageSeconds : Option Binary64
  lastUpdateLabel : String
  load : Binary64
  loadLabel : String
  pendingRemoval : Bool
  deriving DecidableEq, Repr

def ageLabel : Option Binary64 → String
  | none => "<never>"
  | some seconds => String.ofList (seconds.fixed 1)++" seconds ago"

def DeputyRow.of (t : Thresholds) (now : Instant) (name : String) (d : Deputy) : DeputyRow :=
  let age := d.age now
  let seconds := age.map secondsOfNanos
  ⟨name,t.classify age,seconds,ageLabel seconds,d.load,String.ofList (d.load.fixed 6),
    d.pendingRemoval⟩

/-- Deputies that have been heard of and not been cleaned up since. -/
structure Monitor where
  thresholds : Thresholds
  deputies : SortedMap String Deputy
  deriving DecidableEq

namespace Monitor

def new (thresholds : Thresholds) : Monitor := ⟨thresholds,SortedMap.empty⟩

def size (m : Monitor) : Nat := m.deputies.size

def contains (m : Monitor) (name : String) : Bool := m.deputies.contains name

def track (deputies : SortedMap String Deputy) (name : String) : SortedMap String Deputy :=
  if deputies.contains name then deputies else deputies.insert name Deputy.unseen

/-- The heartbeat that arrived last counts, whatever the times in them say. A deputy marked
for removal stays marked. -/
def heartbeat (m : Monitor) (beat : Heartbeat) : Monitor :=
  let known := (m.deputies.get? beat.deputy).getD Deputy.unseen
  let deputy := { known with load := beat.load.clampNegative, lastUpdate := some beat.moment }
  { m with deputies := m.deputies.insert beat.deputy deputy }

def band? (m : Monitor) (name : String) (now : Instant) : Option Band :=
  (m.deputies.get? name).map (fun d => m.thresholds.classify (d.age now))

def rows (m : Monitor) (now : Instant) : List DeputyRow :=
  m.deputies.entries.map (fun e => DeputyRow.of m.thresholds now e.1 e.2)

/-- Tracks every live deputy and marks exactly the others for removal. -/
def reconcile (m : Monitor) (live : List String) : Monitor :=
  let tracked := live.foldl track m.deputies
  let mark := fun name (d : Deputy) => { d with pendingRemoval := !live.contains name }
  { m with deputies := tracked.mapValues mark }

/-- Forgets the marked deputies and names them. -/
def cleanup (m : Monitor) : List String × Monitor :=
  ((m.deputies.filter (fun _ d => d.pendingRemoval)).keys,
    { m with deputies := m.deputies.filter (fun _ d => !d.pendingRemoval) })

end Monitor

end FleetConsole
