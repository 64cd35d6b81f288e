import FleetConsole.Proofs.Router.Step

namespace FleetConsole.Router

/-- How many commands of a deputy have a channel. -/
def liveCount (r : Router) (deputy : String) : Nat :=
  r.channels.keys.countP (fun id => decide (id.deputy=deputy))

theorem liveCount_of_contains {r r' : Router}
    (h : ∀ id,r'.channels.contains id=r.channels.contains id) (deputy : String) :
    r'.liveCount deputy=r.liveCount deputy := SortedMap.countP_keys_congr h _

theorem contains_step (r : Router) (op : Op) (id : CommandId) :
    (r.step op).2.channels.contains id=(op.onChannel id r.config (r.channels.get? id)).isSome := by
  rw [contains_eq_isSome,get?_step]

theorem liveCount_add (r : Router) (stamp : Stamp) (command : CommandInfo) (deputy : String) :
    (r.step (.add stamp command)).2.liveCount deputy=
      r.liveCount deputy+
        if r.channels.contains command.id=false ∧ command.id.deputy=deputy then 1 else 0 := by
  cases h : r.channels.get? command.id with
  | none =>
    have hc : r.channels.contains command.id=false := by
      rw [contains_eq_isSome,h,Option.isSome_none]
    rw [step_add_new h,liveCount,SortedMap.countP_keys_insert hc,liveCount]
    simp [hc]
  | some c =>
    have hc : r.channels.contains command.id=true := by
      rw [contains_eq_isSome,h,Option.isSome_some]
    rw [step_add_live h]
    simp [hc]

theorem liveCount_remove (r : Router) (stamp : Stamp) (command : CommandInfo) (deputy : String) :
    r.liveCount deputy=(r.step (.remove stamp command)).2.liveCount deputy+
      if r.channels.contains command.id=true ∧ command.id.deputy=deputy then 1 else 0 := by
  cases h : r.channels.get? command.id with
  | none =>
    have hc : r.channels.contains command.id=false := by
      rw [contains_eq_isSome,h,Option.isSome_none]
    rw [step_remove_none h]
    simp [hc]
  | some c =>
    have hc : r.channels.contains command.id=true := by
      rw [contains_eq_isSome,h,Option.isSome_some]
    rw [step_remove_live h,liveCount,SortedMap.countP_keys_erase hc,liveCount]
    simp [hc]

/-- Whether an operation adds or removes a command. -/
def Op.recounts : Op → Bool
  | .add .. => true
  | .remove .. => true
  | _ => false

theorem liveCount_step {op : Op} (h : op.recounts=false) (r : Router) (deputy : String) :
    (r.step op).2.liveCount deputy=r.liveCount deputy := by
  refine liveCount_of_contains (fun id => ?_) deputy
  rw [contains_step,contains_eq_isSome]
  cases op with
  | add stamp command => cases h
  | remove stamp command => cases h
  | ingest message => rw [Op.onChannel]; split <;> simp
  | setMaxLines maxLines => rw [Op.onChannel]; split <;> simp
  | clearCommand name => rw [Op.onChannel]; split <;> simp
  | _ => simp [Op.onChannel]

end FleetConsole.Router
