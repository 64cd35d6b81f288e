import FleetConsole.Deputy.Freshness
import FleetConsole.Router.Basic

namespace FleetConsole

/-- What the command line says. -/
structure Config where
  rateLimitKb : Option UInt32
  maxLines : UInt64
  upkeepMillis : UInt64
  reconcileMillis : UInt64
  warnAfterMillis : UInt64
  staleAfterMillis : UInt64
  logLevel : String
  jsonOutput : Bool
  settings : Option String
  deriving DecidableEq, Repr

namespace Config

def standard : Config where
  rateLimitKb := none
  maxLines := 2000
  upkeepMillis := 500
  reconcileMillis := 1000
  warnAfterMillis := 2000
  staleAfterMillis := 5000
  logLevel := "info"
  jsonOutput := false
  settings := none

def fault? (c : Config) : Option ConfigFault :=
  if c.maxLines=0 then some .noMaxLines
  else if c.upkeepMillis=0 ∨ c.reconcileMillis=0 then some .idleTimer
  else if c.staleAfterMillis<c.warnAfterMillis then some .warnAfterStale
  else none

def validate (c : Config) : Except ConsoleError Unit :=
  match c.fault? with
  | some fault => .error (.invalidConfig fault)
  | none => .ok ()

def explicitLimit (c : Config) : Option RateLimit := c.rateLimitKb.map RateLimit.mk

/-- A limit on the command line counts before a saved one. -/
def rateLimit (c : Config) (saved : Option RateLimit) : RateLimit :=
  (c.explicitLimit.or saved).getD RateLimit.defaultLimit

/-- A limit is saved when the operator chose it, on the command line or later. -/
def limitToSave (c : Config) (startedWith : RateLimit) (current : Option RateLimit) :
    Option RateLimit :=
  current.filter (fun limit => c.rateLimitKb.isSome || limit != startedWith)

def routerConfig (c : Config) (saved : Option RateLimit) : RouterConfig :=
  RouterConfig.ofLimit (c.rateLimit saved) c.maxLines.toNat

def thresholds (c : Config) : Thresholds :=
  Thresholds.ofMillis c.warnAfterMillis.toNat c.staleAfterMillis.toNat

end Config

end FleetConsole
