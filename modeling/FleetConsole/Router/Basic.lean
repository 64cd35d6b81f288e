import FleetConsole.Channel
import FleetConsole.Error
import FleetConsole.GlobalLog
import FleetConsole.SortedMap
import FleetConsole.Style.Scan

namespace FleetConsole

structure RouterConfig where
  /-- The limit the quota was computed from, when it was set as a limit. -/
  rateLimit : Option RateLimit
  windowQuota : UInt64
  maxLines : Nat
  deriving DecidableEq, Repr

namespace RouterConfig

def ofLimit (limit : RateLimit) (maxLines : Nat) : RouterConfig :=
  ⟨some limit,limit.windowQuota,maxLines⟩

def ofQuota (quota : UInt64) (maxLines : Nat) : RouterConfig := ⟨none,quota,maxLines⟩

def standard : RouterConfig := ofLimit RateLimit.defaultLimit LineBuffer.defaultMaxLines

end RouterConfig

inductive IngestOutcome where
  | unknownCommand
  | accepted (bytes : Nat)
  | truncated (accepted dropped : Nat)
  | dropped (bytes : Nat)
  deriving DecidableEq, Repr

structure DropReport where
  command : CommandId
  droppedBytes : Nat
  deriving DecidableEq, Repr

/-- A change in the set of commands or in one of them. -/
inductive LifecycleEvent where
  | commandAdded (command : CommandInfo)
  | commandRemoved (command : CommandInfo)
  | statusChanged (command : CommandId) (oldStatus newStatus : CommandStatus)
  deriving DecidableEq, Repr

structure Router where
  channels : SortedMap CommandId Channel
  global : GlobalLog Style
  styles : Style.Table
  config : RouterConfig
  deriving DecidableEq

namespace Router

def new (config : RouterConfig) : Router :=
  ⟨SortedMap.empty,GlobalLog.new config.maxLines,Style.Table.initial,config⟩

/-- Puts a line of the console itself into the global log. -/
def notice (r : Router) (line : List Char) : Router :=
  let (runs,styles) := Style.scan r.styles line
  { r with global := r.global.appendNotice runs, styles := styles }

def addedNotice (stamp : Stamp) (command : CommandInfo) : List Char :=
  stamp.text++("Added ["++command.id.deputy++"] ["++command.id.command++"] ["++command.exec++"]\n").toList

def removedNotice (stamp : Stamp) (command : CommandInfo) : List Char :=
  stamp.text++("["++command.id.deputy++"] removed ["++command.id.command++"] ["++command.exec++"]\n").toList

def statusNotice (stamp : Stamp) (id : CommandId) (status : CommandStatus) : List Char :=
  stamp.text++("["++id.command++"] new status: "++status.label++"\n").toList

def dropNotice (stamp : Stamp) (report : DropReport) : List Char :=
  stamp.text++"Ignored ".toList++Text.decimal report.droppedBytes++
    (" bytes of output from "++report.command.display++"\n").toList

/-- A command that is still live keeps its channel, and the add fails. -/
def add (r : Router) (stamp : Stamp) (command : CommandInfo) : Except ConsoleError Router :=
  if r.channels.contains command.id then .error (.duplicateCommand command.id)
  else
    let channel := Channel.new command.id command.exec r.config.windowQuota r.config.maxLines
    .ok ({ r with channels := r.channels.insert command.id channel }.notice (addedNotice stamp command))

/-- Says whether there was something to remove. -/
def remove (r : Router) (stamp : Stamp) (command : CommandInfo) : Bool × Router :=
  if r.channels.contains command.id then
    (true,{ r with channels := r.channels.erase command.id }.notice (removedNotice stamp command))
  else (false,r)

/-- A status is announced whether or not the command is live. -/
def changeStatus (r : Router) (stamp : Stamp) (id : CommandId) (status : CommandStatus) : Router :=
  r.notice (statusNotice stamp id status)

def handle (r : Router) (stamp : Stamp) : LifecycleEvent → Except ConsoleError Router
  | .commandAdded command => r.add stamp command
  | .commandRemoved command => .ok (r.remove stamp command).2
  | .statusChanged id _ newStatus => .ok (r.changeStatus stamp id newStatus)

/-- Writes accepted output to a command's own log and to the global one. Where nothing was
accepted, nothing is written: not even an open line of another command is ended. -/
def deliver (r : Router) (channel : Channel) (text : List Char) : Channel × Router :=
  if text=[] then (channel,r)
  else
    let (runs,styles) := Style.scan r.styles text
    (channel.accept runs (Text.utf8Length text),
      { r with global := r.global.appendOutput channel.id runs, styles := styles })

def outcome (accepted dropped : Nat) : IngestOutcome :=
  if dropped=0 then .accepted accepted
  else if accepted=0 then .dropped dropped
  else .truncated accepted dropped

/-- Accepts as many whole characters as the remaining quota affords and drops the rest. -/
def ingest (r : Router) (message : OutputMessage) : IngestOutcome × Router :=
  match r.channels.get? message.command with
  | none => (.unknownCommand,r)
  | some channel =>
    let text := message.text.toList
    let taken := Text.fitting channel.window.remaining text
    let kept := text.take taken
    let accepted := Text.utf8Length kept
    let dropped := Text.utf8Length (text.drop taken)
    let (channel',r') := r.deliver channel kept
    (outcome accepted dropped,
      { r' with channels := r'.channels.insert message.command (channel'.drop dropped) })

structure Upkeep where
  global : GlobalLog Style
  styles : Style.Table
  /-- Newest first. -/
  reports : List DropReport

def upkeepChannel (stamp : Stamp) (u : Upkeep) (channel : Channel) : Channel × Upkeep :=
  if channel.unreported=0 then (channel.rotate,u)
  else
    let report : DropReport := ⟨channel.id,channel.unreported⟩
    let (own,styles) := Style.scan u.styles (Channel.dropNotice stamp report.droppedBytes)
    let (shared,styles') := Style.scan styles (dropNotice stamp report)
    ((channel.report.append own).rotate,
      ⟨u.global.appendNotice shared,styles',report :: u.reports⟩)

/-- Reports what each command lost since the last upkeep and moves every window on. -/
def upkeep (r : Router) (stamp : Stamp) : List DropReport × Router :=
  let (channels,u) := r.channels.mapWithState (fun u _ channel => upkeepChannel stamp u channel)
    ⟨r.global,r.styles,[]⟩
  (u.reports.reverse,{ r with channels := channels, global := u.global, styles := u.styles })

def applyQuota (r : Router) (quota : UInt64) : Router :=
  { r with
    config := { r.config with windowQuota := quota }
    channels := r.channels.mapValues (fun _ channel => channel.setQuota quota) }

def setRateLimit (r : Router) (limit : RateLimit) : Router :=
  let r' := r.applyQuota limit.windowQuota
  { r' with config := { r'.config with rateLimit := some limit } }

/-- A quota set in bytes belongs to no limit in kilobytes. -/
def setWindowQuota (r : Router) (quota : UInt64) : Router :=
  let r' := r.applyQuota quota
  { r' with config := { r'.config with rateLimit := none } }

def setMaxLines (r : Router) (maxLines : Nat) : Except ConsoleError Router :=
  if maxLines=0 then .error (.invalidConfig .noRetainedLines)
  else .ok
    { r with
      config := { r.config with maxLines := maxLines }
      global := r.global.setMaxLines maxLines
      channels := r.channels.mapValues (fun _ channel => channel.setMaxLines maxLines) }

def clearGlobal (r : Router) : Router := { r with global := r.global.clear }

/-- Says whether the command is live. -/
def clearCommand (r : Router) (id : CommandId) : Bool × Router :=
  match r.channels.get? id with
  | none => (false,r)
  | some channel => (true,{ r with channels := r.channels.insert id channel.clear })

end Router

end FleetConsole
