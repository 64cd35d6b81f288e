namespace FleetConsole

/-- A command is named by the deputy that runs it and its own name there. -/
structure CommandId where
  deputy : String
  command : String
  deriving DecidableEq, Repr

namespace CommandId

instance : Ord CommandId := ⟨compareLex (compareOn deputy) (compareOn command)⟩

instance : Std.TransOrd CommandId :=
  inferInstanceAs (Std.TransCmp (compareLex (compareOn deputy) (compareOn command)))

instance : Std.ReflOrd CommandId :=
  inferInstanceAs (Std.ReflCmp (compareLex (compareOn deputy) (compareOn command)))

instance : Std.LawfulEqOrd CommandId where
  eq_of_compare := by
    intro a b h
    have h' : compareLex (compareOn deputy) (compareOn command) a b=.eq := h
    simp only [compareLex,compareOn,Ordering.then_eq_eq,Std.LawfulEqOrd.compare_eq_iff_eq] at h'
    cases a
    cases b
    simp_all

def display (id : CommandId) : String := "["++id.deputy++"] ["++id.command++"]"

end CommandId

inductive CommandStatus where
  | tryingToStart
  | running
  | tryingToStop
  | removing
  | stoppedOk
  | stoppedError
  | restarting
  | unknown
  deriving DecidableEq, Repr

namespace CommandStatus

/-- Names on the wire, each with its status. -/
def names : List (String × CommandStatus) :=
  [("trying_to_start",.tryingToStart),("running",.running),("trying_to_stop",.tryingToStop),
   ("removing",.removing),("stopped_ok",.stoppedOk),("stopped_error",.stoppedError),
   ("restarting",.restarting),("unknown",.unknown)]

def name : CommandStatus → String
  | .tryingToStart => "trying_to_start"
  | .running => "running"
  | .tryingToStop => "trying_to_stop"
  | .removing => "removing"
  | .stoppedOk => "stopped_ok"
  | .stoppedError => "stopped_error"
  | .restarting => "restarting"
  | .unknown => "unknown"

/-- A name that is not in the list is a status of a newer fleet, and unknown here. -/
def ofName (name : String) : CommandStatus := (names.lookup name).getD .unknown

def label : CommandStatus → String
  | .tryingToStart => "Trying to start"
  | .running => "Running"
  | .tryingToStop => "Trying to stop"
  | .removing => "Removing"
  | .stoppedOk => "Stopped (OK)"
  | .stoppedError => "Stopped (Error)"
  | .restarting => "Restarting"
  | .unknown => "Unknown"

theorem ofName_name (s : CommandStatus) : ofName s.name=s := by cases s <;> decide

end CommandStatus

structure CommandInfo where
  id : CommandId
  exec : String
  status : CommandStatus
  deriving DecidableEq, Repr

structure OutputMessage where
  command : CommandId
  text : String
  deriving DecidableEq, Repr

end FleetConsole
