import FleetConsole.Console.Basic

namespace FleetConsole.Console

/-- What a running console meets: events from its mailbox and ticks of its two timers. -/
inductive Input where
  | event (stamp : Stamp) (event : Event)
  | upkeep (stamp : Stamp)
  | reconcile (live : List String) (now : Instant)
  deriving DecidableEq, Repr

/-- A rejected event changes nothing and stops nothing. -/
def step (c : Console) : Input → Dispatched
  | .event stamp event =>
    match c.dispatch stamp event with
    | .ok dispatched => dispatched
    | .error _ => c.silently
  | .upkeep stamp =>
    let (reports,c') := c.upkeep stamp
    ⟨.proceed,upkeepSignals reports,c'⟩
  | .reconcile live now =>
    let (rows,c') := c.reconcile live now
    ⟨.proceed,[.deputies rows],c'⟩

/-- Takes inputs up to the first shutdown. -/
def run (c : Console) : List Input → Dispatched
  | [] => c.silently
  | input :: rest =>
    match c.step input with
    | ⟨.stop,signals,c'⟩ => ⟨.stop,signals,c'⟩
    | ⟨.proceed,signals,c'⟩ =>
      let last := c'.run rest
      { last with signals := signals++last.signals }

end FleetConsole.Console
