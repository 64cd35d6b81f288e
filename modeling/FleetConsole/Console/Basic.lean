import FleetConsole.Signal

namespace FleetConsole

/-- The router and the monitor together, with the deputies as they were last shown. -/
structure Console where
  router : Router
  monitor : Monitor
  lastRows : List DeputyRow
  deriving DecidableEq

/-- Whether more events are wanted. -/
inductive Flow where
  | proceed
  | stop
  deriving DecidableEq, Repr

namespace Console

def new (config : RouterConfig) (thresholds : Thresholds) : Console :=
  ⟨Router.new config,Monitor.new thresholds,[]⟩

def ingest (c : Console) (message : OutputMessage) : IngestOutcome × Console :=
  let (outcome,router) := c.router.ingest message
  (outcome,{ c with router := router })

def upkeep (c : Console) (stamp : Stamp) : List DropReport × Console :=
  let (reports,router) := c.router.upkeep stamp
  (reports,{ c with router := router })

/-- One signal for each report. -/
def upkeepSignals (reports : List DropReport) : List Signal := reports.map .dropped

def reconcile (c : Console) (live : List String) (now : Instant) : List DeputyRow × Console :=
  let monitor := c.monitor.reconcile live
  let rows := monitor.rows now
  (rows,{ c with monitor := monitor, lastRows := rows })

/-- Rows of forgotten deputies are not shown any longer. -/
def cleanupDeputies (c : Console) : List String × Console :=
  let (names,monitor) := c.monitor.cleanup
  let rows := c.lastRows.filter (fun row => !names.contains row.name)
  (names,{ c with monitor := monitor, lastRows := rows })

/-- A cleanup without effect is not worth a signal. -/
def cleanupSignals (names : List String) : List Signal :=
  if names.isEmpty then [] else [.pruned names]

def setRateLimit (c : Console) (limit : RateLimit) : Console :=
  { c with router := c.router.setRateLimit limit }

/-- What comes of an event that was not rejected. -/
structure Dispatched where
  flow : Flow
  signals : List Signal
  console : Console
  deriving DecidableEq

def silently (c : Console) : Dispatched := ⟨.proceed,[],c⟩

def dispatch (c : Console) (stamp : Stamp) : Event → Except ConsoleError Dispatched
  | .output message => .ok (silently (c.ingest message).2)
  | .heartbeat beat => .ok (silently { c with monitor := c.monitor.heartbeat beat })
  | .lifecycle event =>
    (c.router.handle stamp event).map (fun router => silently { c with router := router })
  | .setRateLimit limit => .ok (silently (c.setRateLimit limit))
  | .setMaxLines lines =>
    (c.router.setMaxLines lines.toNat).map (fun router => silently { c with router := router })
  | .clearGlobal => .ok (silently { c with router := c.router.clearGlobal })
  | .cleanupDeputies =>
    let (names,c') := c.cleanupDeputies
    .ok ⟨.proceed,cleanupSignals names,c'⟩
  | .shutdown => .ok ⟨.stop,[],c⟩

end Console

end FleetConsole
