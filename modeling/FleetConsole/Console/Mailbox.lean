import FleetConsole.Console.Run

namespace FleetConsole

/-- Events on their way to a console, oldest first. -/
structure Mailbox where
  capacity : Nat
  events : List Event
  closed : Bool
  deriving DecidableEq, Repr

namespace Mailbox

def new (capacity : Nat) : Mailbox := ⟨capacity,[],false⟩

/-- Does not wait for room. -/
def trySend (m : Mailbox) (event : Event) : Except ConsoleError Mailbox :=
  if m.closed then .error .mailboxClosed
  else if m.capacity ≤ m.events.length then .error .mailboxFull
  else .ok { m with events := m.events++[event] }

/-- Runs a console on the events of a mailbox whose senders are gone. The mailbox is closed
afterwards, also when a shutdown left events in it. -/
def run (m : Mailbox) (stamp : Stamp) (c : Console) : Console.Dispatched × Mailbox :=
  (c.run (m.events.map (Console.Input.event stamp)),{ m with events := [], closed := true })

end Mailbox

end FleetConsole
