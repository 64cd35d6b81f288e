import FleetConsole.Router.Basic
import FleetConsole.Time.Instant

namespace FleetConsole

/-- What a deputy says about itself now and then. -/
structure Heartbeat where
  deputy : String
  load : Binary64
  moment : Instant
  deriving DecidableEq, Repr

/-- What can arrive at a console. -/
inductive Event where
  | output (message : OutputMessage)
  | heartbeat (heartbeat : Heartbeat)
  | lifecycle (event : LifecycleEvent)
  | setRateLimit (limit : RateLimit)
  | setMaxLines (lines : UInt64)
  | clearGlobal
  | cleanupDeputies
  | shutdown
  deriving DecidableEq, Repr

end FleetConsole
