import FleetConsole.Event.Basic
import FleetConsole.Json.Printer
import FleetConsole.Time.Timestamp

namespace FleetConsole

def CommandId.toJson (id : CommandId) : Json :=
  .obj [("deputy",.str id.deputy),("command_id",.str id.command)]

def CommandStatus.toJson (status : CommandStatus) : Json := .str status.name

def CommandInfo.toJson (command : CommandInfo) : Json :=
  .obj [("id",command.id.toJson),("exec_str",.str command.exec),("status",command.status.toJson)]

/-- The tag comes first and the fields follow in their fixed order. -/
def LifecycleEvent.members : LifecycleEvent → List (String × Json)
  | .commandAdded command => [("kind",.str "command_added"),("command",command.toJson)]
  | .commandRemoved command => [("kind",.str "command_removed"),("command",command.toJson)]
  | .statusChanged id oldStatus newStatus =>
    [("kind",.str "status_changed"),("command",id.toJson),
     ("old_status",oldStatus.toJson),("new_status",newStatus.toJson)]

namespace Event

def members : Event → List (String × Json)
  | .output message =>
    [("type",.str "output"),("command",message.command.toJson),("text",.str message.text)]
  | .heartbeat beat =>
    [("type",.str "heartbeat"),("deputy",.str beat.deputy),("cpu_load",.float beat.load),
     ("timestamp",.str (String.ofList (Timestamp.write beat.moment)))]
  | .lifecycle event => ("type",.str "sheriff") :: event.members
  | .setRateLimit limit =>
    [("type",.str "set_rate_limit"),("kb_per_sec",.int limit.kbPerSec.toNat)]
  | .setMaxLines lines => [("type",.str "set_max_retained_lines"),("lines",.int lines.toNat)]
  | .clearGlobal => [("type",.str "clear_global")]
  | .cleanupDeputies => [("type",.str "cleanup_deputies")]
  | .shutdown => [("type",.str "shutdown")]

def toJson (e : Event) : Json := .obj e.members

def write (e : Event) : List Char := e.toJson.compact

end Event

end FleetConsole
