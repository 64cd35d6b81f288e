import FleetConsole.Fleet.Command
import FleetConsole.Json.Fault

namespace FleetConsole

/-- What is wrong with a configuration. -/
inductive ConfigFault where
  | noRetainedLines
  | noMaxLines
  | idleTimer
  | warnAfterStale
  deriving DecidableEq, Repr

def ConfigFault.message : ConfigFault → String
  | .noRetainedLines => "max_retained_lines must be at least 1"
  | .noMaxLines => "--max-lines must be at least 1"
  | .idleTimer => "--upkeep-ms and --reconcile-ms must be positive"
  | .warnAfterStale => "--warn-after-ms must not exceed --stale-after-ms"

inductive ConsoleError where
  | duplicateCommand (id : CommandId)
  | invalidConfig (fault : ConfigFault)
  | settingsIo
  | settingsJson (fault : Json.Fault)
  | mailboxClosed
  | mailboxFull
  deriving DecidableEq, Repr

namespace ConsoleError

/-- The text shown to the operator. What a file or the reader said about settings is not
part of it. -/
def message : ConsoleError → String
  | .duplicateCommand id => "command "++id.display++" is already registered"
  | .invalidConfig fault => "invalid configuration: "++fault.message
  | .settingsIo => "settings I/O error"
  | .settingsJson _ => "settings JSON error"
  | .mailboxClosed => "console mailbox closed"
  | .mailboxFull => "console mailbox full"

def concernsSettings : ConsoleError → Bool
  | .settingsIo => true
  | .settingsJson _ => true
  | _ => false

end ConsoleError

end FleetConsole
