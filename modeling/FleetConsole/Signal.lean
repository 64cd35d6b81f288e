import FleetConsole.Deputy.Monitor
import FleetConsole.Json.Printer

namespace FleetConsole

/-- What a console tells the programs that watch it. -/
inductive Signal where
  | dropped (report : DropReport)
  | deputies (rows : List DeputyRow)
  | pruned (names : List String)
  deriving DecidableEq, Repr

namespace Signal

/-- Members stand in the order of their names, here as everywhere in a signal. -/
def rowJson (row : DeputyRow) : Json :=
  .obj
    [("age_secs",match row.ageSeconds with
      | none => .null
      | some seconds => .float seconds),
     ("band",.str row.band.name),
     ("cpu_load",.float row.load),
     ("cpu_load_label",.str row.loadLabel),
     ("last_update_label",.str row.lastUpdateLabel),
     ("name",.str row.name),
     ("pending_removal",.bool row.pendingRemoval)]

/-- What a signal is called. -/
def event : Signal → String
  | .dropped _ => "drop_report"
  | .deputies _ => "deputies"
  | .pruned _ => "deputies_pruned"

/-- What it says besides. -/
def body : Signal → List (String × Json)
  | .dropped report =>
    [("deputy",.str report.command.deputy),("command_id",.str report.command.command),
     ("dropped_bytes",.int report.droppedBytes)]
  | .deputies rows => [("rows",.arr (rows.map rowJson))]
  | .pruned names => [("deputies",.arr (names.map .str))]

/-- What all signals have. -/
def envelope (ts event : String) : List (String × Json) := [("ts",.str ts),("event",.str event)]

/-- The body joins the envelope. A member of the same name would take the other one's place. -/
def toJson (ts : String) (signal : Signal) : Json :=
  .obj (SortedMap.ofList (envelope ts signal.event++signal.body)).entries

/-- A signal of a given time is one line. -/
def line (ts : String) (signal : Signal) : List Char := (signal.toJson ts).write ['\n']

end Signal

/-- A disabled emitter writes nothing. -/
structure Emitter where
  enabled : Bool
  deriving DecidableEq, Repr

namespace Emitter

def emit (e : Emitter) (ts : String) (signals : List Signal) : List (List Char) :=
  if e.enabled then signals.map (Signal.line ts) else []

def describe (e : Emitter) : String :=
  "EventEmitter \x7b enabled: "++(if e.enabled then "true" else "false")++" \x7d"

end Emitter

end FleetConsole
