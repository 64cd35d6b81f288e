import FleetConsole.Console.Run
import FleetConsole.Proofs.Router.Step

namespace FleetConsole

def LifecycleEvent.routerOp (stamp : Stamp) : LifecycleEvent → Router.Op
  | .commandAdded command => .add stamp command
  | .commandRemoved command => .remove stamp command
  | .statusChanged id oldStatus newStatus => .changeStatus stamp id oldStatus newStatus

def Event.routerOp (stamp : Stamp) : Event → Option Router.Op
  | .output message => some (.ingest message)
  | .lifecycle event => some (event.routerOp stamp)
  | .setRateLimit limit => some (.setRateLimit limit)
  | .setMaxLines lines => some (.setMaxLines lines.toNat)
  | .clearGlobal => some .clearGlobal
  | _ => none

namespace Console

def Input.routerOp : Input → Option Router.Op
  | .event stamp e => e.routerOp stamp
  | .upkeep stamp => some (.upkeep stamp)
  | .reconcile .. => none

/-- A rejected event is a failed operation: neither changes anything. -/
theorem settled (c : Console) (r : Except ConsoleError Router) :
    (match r.map (fun router => silently { c with router := router }) with
      | .ok dispatched => dispatched
      | .error _ => c.silently)=silently { c with router := (c.router.settle r).2 } := by
  cases r <;> rfl

/-- An event for the router is taken without a word. -/
theorem step_of_routerOp {stamp : Stamp} {event : Event} {op : Router.Op}
    (h : event.routerOp stamp=some op) (c : Console) :
    c.step (.event stamp event)=silently { c with router := (c.router.step op).2 } := by
  cases event with
  | output message => cases h; rfl
  | lifecycle event =>
    cases h
    cases event with
    | commandAdded command => exact settled c (c.router.add stamp command)
    | _ => rfl
  | setRateLimit limit => cases h; rfl
  | setMaxLines lines =>
    cases h
    exact settled c (c.router.setMaxLines lines.toNat)
  | clearGlobal => cases h; rfl
  | _ => cases h

theorem router_step (c : Console) (input : Input) :
    (c.step input).console.router=
      input.routerOp.elim c.router (fun op => (c.router.step op).2) := by
  cases input with
  | event stamp event =>
    cases h : event.routerOp stamp with
    | some op =>
      rw [step_of_routerOp h,Input.routerOp,h]
      rfl
    | none =>
      rw [Input.routerOp,h]
      cases event <;> first | rfl | cases h
  | _ => rfl

/-- Only a shutdown stops a console. -/
theorem flow_step (c : Console) (stamp : Stamp) (event : Event) :
    (c.step (.event stamp event)).flow=.stop ↔ event=.shutdown := by
  cases h : event.routerOp stamp with
  | some op =>
    rw [step_of_routerOp h]
    constructor
    · intro hs
      cases hs
    · rintro rfl
      cases h
  | none =>
    cases event with
    | shutdown => exact ⟨fun _ => rfl,fun _ => rfl⟩
    | heartbeat beat => exact ⟨nofun,nofun⟩
    | cleanupDeputies => exact ⟨nofun,nofun⟩
    | _ => cases h

/-- A console after inputs of any kind, whether or not one of them asks it to stop. -/
def after (c : Console) (inputs : List Input) : Console :=
  inputs.foldl (fun c input => (c.step input).console) c

theorem after_concat (c : Console) (inputs : List Input) (input : Input) :
    c.after (inputs++[input])=((c.after inputs).step input).console := List.foldl_concat ..

/-- What holds at the start and survives every input holds after all inputs. -/
theorem after_induction {c : Console} {motive : Console → Prop} (start : motive c)
    (step : ∀ c input,motive c → motive (c.step input).console) (inputs : List Input) :
    motive (c.after inputs) := by
  induction inputs using List.reverseRecOn with
  | nil => exact start
  | append_singleton inputs input ih =>
    rw [after_concat]
    exact step _ input ih

end Console

end FleetConsole
