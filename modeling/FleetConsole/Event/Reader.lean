import FleetConsole.Event.Basic
import FleetConsole.Json.Shape
import FleetConsole.Json.Tagged
import FleetConsole.Time.Timestamp

namespace FleetConsole

def CommandId.ofJson? (v : Json) : Option CommandId :=
  match v.record? ["deputy","command_id"] with
  | some [deputy,command] => do
    let deputy ← deputy.string?
    let command ← command.string?
    some ⟨deputy,command⟩
  | _ => none

/-- A status is a name, or an object with the name over nothing. -/
def CommandStatus.ofJson? : Json → Option CommandStatus
  | .str name => some (ofName name)
  | .obj [(name,.null)] => some (ofName name)
  | .obj [(name,.obj [])] => some (ofName name)
  | _ => none

def CommandInfo.ofJson? (v : Json) : Option CommandInfo :=
  match v.record? ["id","exec_str","status"] with
  | some [id,exec,status] => do
    let id ← CommandId.ofJson? id
    let exec ← exec.string?
    let status ← CommandStatus.ofJson? status
    some ⟨id,exec,status⟩
  | _ => none

namespace LifecycleEvent

def kinds : List String := ["command_added","command_removed","status_changed"]

def ofTagged? (tagged : Json.Tagged) : Option LifecycleEvent :=
  if tagged.tag="command_added" then
    match tagged.content.record? ["command"] with
    | some [command] => (CommandInfo.ofJson? command).map .commandAdded
    | _ => none
  else if tagged.tag="command_removed" then
    match tagged.content.record? ["command"] with
    | some [command] => (CommandInfo.ofJson? command).map .commandRemoved
    | _ => none
  else if tagged.tag="status_changed" then
    match tagged.content.record? ["command","old_status","new_status"] with
    | some [command,oldStatus,newStatus] => do
      let command ← CommandId.ofJson? command
      let oldStatus ← CommandStatus.ofJson? oldStatus
      let newStatus ← CommandStatus.ofJson? newStatus
      some (.statusChanged command oldStatus newStatus)
    | _ => none
  else none

/-- Inside an event a kind may also be given by its place among the kinds. -/
def kind? : Json → Option String
  | .str name => some name
  | .int n => if n<0 then none else kinds[n.toNat]?
  | _ => none

def ofJson? (v : Json) : Option LifecycleEvent := do
  let (kind,content) ← v.untag? "kind"
  let kind ← kind? kind
  ofTagged? ⟨kind,content⟩

/-- Reads a lifecycle event that stands alone. -/
def read (text : List Char) : Except Json.Fault LifecycleEvent :=
  Json.readByTag "kind" kinds ofTagged? text

end LifecycleEvent

namespace Event

def types : List String :=
  ["output","heartbeat","sheriff","set_rate_limit","set_max_retained_lines","clear_global",
   "cleanup_deputies","shutdown"]

def bare? (e : Event) (content : Json) : Option Event := if content.isBare then some e else none

def ofTagged? (tagged : Json.Tagged) : Option Event :=
  if tagged.tag="output" then
    match tagged.content.record? ["command","text"] with
    | some [command,text] => do
      let command ← CommandId.ofJson? command
      let text ← text.string?
      some (.output ⟨command,text⟩)
    | _ => none
  else if tagged.tag="heartbeat" then
    match tagged.content.record? ["deputy","cpu_load","timestamp"] with
    | some [deputy,load,moment] => do
      let deputy ← deputy.string?
      let load ← load.float?
      let moment ← Timestamp.read? (← moment.string?).toList
      some (.heartbeat ⟨deputy,load,moment⟩)
    | _ => none
  else if tagged.tag="sheriff" then (LifecycleEvent.ofJson? tagged.content).map .lifecycle
  else if tagged.tag="set_rate_limit" then
    match tagged.content.record? ["kb_per_sec"] with
    | some [kb] => kb.uint32?.map (fun kb => .setRateLimit ⟨kb⟩)
    | _ => none
  else if tagged.tag="set_max_retained_lines" then
    match tagged.content.record? ["lines"] with
    | some [lines] => lines.uint64?.map .setMaxLines
    | _ => none
  else if tagged.tag="clear_global" then bare? .clearGlobal tagged.content
  else if tagged.tag="cleanup_deputies" then bare? .cleanupDeputies tagged.content
  else if tagged.tag="shutdown" then bare? .shutdown tagged.content
  else none

/-- Reads an event from a whole text. -/
def read (text : List Char) : Except Json.Fault Event :=
  Json.readByTag "type" types ofTagged? text

end Event

end FleetConsole
