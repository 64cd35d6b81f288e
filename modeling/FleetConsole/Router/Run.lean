import FleetConsole.Router.Basic

namespace FleetConsole.Router

inductive Op where
  | add (stamp : Stamp) (command : CommandInfo)
  | remove (stamp : Stamp) (command : CommandInfo)
  | changeStatus (stamp : Stamp) (id : CommandId) (oldStatus newStatus : CommandStatus)
  | ingest (message : OutputMessage)
  | upkeep (stamp : Stamp)
  | setRateLimit (limit : RateLimit)
  | setWindowQuota (quota : UInt64)
  | setMaxLines (maxLines : Nat)
  | clearGlobal
  | clearCommand (id : CommandId)
  deriving DecidableEq, Repr

/-- What an operation answers. -/
inductive Reply where
  | done
  | failed (error : ConsoleError)
  | found (present : Bool)
  | ingested (outcome : IngestOutcome)
  | reported (reports : List DropReport)
  deriving DecidableEq, Repr

/-- A failed operation changes nothing. -/
def settle (r : Router) : Except ConsoleError Router → Reply × Router
  | .ok r' => (.done,r')
  | .error e => (.failed e,r)

def step (r : Router) : Op → Reply × Router
  | .add stamp command => r.settle (r.add stamp command)
  | .remove stamp command =>
    let (present,r') := r.remove stamp command
    (.found present,r')
  | .changeStatus stamp id _ newStatus => (.done,r.changeStatus stamp id newStatus)
  | .ingest message =>
    let (outcome,r') := r.ingest message
    (.ingested outcome,r')
  | .upkeep stamp =>
    let (reports,r') := r.upkeep stamp
    (.reported reports,r')
  | .setRateLimit limit => (.done,r.setRateLimit limit)
  | .setWindowQuota quota => (.done,r.setWindowQuota quota)
  | .setMaxLines maxLines => r.settle (r.setMaxLines maxLines)
  | .clearGlobal => (.done,r.clearGlobal)
  | .clearCommand id =>
    let (present,r') := r.clearCommand id
    (.found present,r')

def run (r : Router) : List Op → List Reply × Router
  | [] => ([],r)
  | op :: ops =>
    let (reply,r') := r.step op
    let (replies,last) := r'.run ops
    (reply :: replies,last)

end FleetConsole.Router
