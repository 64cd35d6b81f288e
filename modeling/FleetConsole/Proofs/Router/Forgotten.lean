import FleetConsole.Proofs.Router.Conservation

namespace FleetConsole.Router

/-- Bytes of a command's output that are still to be reported. -/
def unreported (r : Router) (id : CommandId) : Nat :=
  (r.channels.get? id).elim 0 Channel.unreported

/-- Bytes that an operation takes away unreported. -/
def forgottenBy (r : Router) (id : CommandId) : Op → Nat
  | .remove _ command => if command.id=id then r.unreported id else 0
  | _ => 0

def forgotten (r : Router) (id : CommandId) : List Op → Nat
  | [] => 0
  | op :: ops => r.forgottenBy id op+(r.step op).2.forgotten id ops

theorem unreported_none {r : Router} {id : CommandId} (h : r.channels.get? id=none) :
    r.unreported id=0 := by
  rw [unreported,h]
  rfl

theorem unreported_some {r : Router} {id : CommandId} {c : Channel}
    (h : r.channels.get? id=some c) : r.unreported id=c.unreported := by
  rw [unreported,h]
  rfl

theorem unreported_step_eq (r : Router) (op : Op) (id : CommandId) :
    (r.step op).2.unreported id=
      (op.onChannel id r.config (r.channels.get? id)).elim 0 Channel.unreported := by
  rw [unreported,get?_step]

/-- Bytes that an operation reports about a command. -/
def reportedBy (id : CommandId) (e : Answered) : Nat :=
  ((reportsBy id e).map DropReport.droppedBytes).sum

theorem forgottenBy_of_not_concerns {op : Op} {id : CommandId} (h : op.concerns id=false)
    (r : Router) : r.forgottenBy id op=0 := by
  cases op with
  | remove stamp command => exact if_neg (of_decide_eq_false h)
  | _ => rfl

/-- A change of every channel that reports nothing and drops nothing. -/
theorem unreported_map {c : Option Channel} {f : Channel → Channel}
    (h : ∀ c,(f c).unreported=c.unreported) :
    (c.map f).elim 0 Channel.unreported=c.elim 0 Channel.unreported := by
  cases c with
  | none => rfl
  | some c => exact h c

theorem unreported_of_upkeep (r : Router) (stamp : Stamp) (id : CommandId) :
    (r.step (.upkeep stamp)).2.unreported id=0 := by
  rw [unreported_step_eq,Op.onChannel]
  cases r.channels.get? id with
  | none => rfl
  | some c => exact c.unreported_upkeep stamp

/-- What was to be reported before an operation and what it dropped is to be reported after it,
was reported by it, or was forgotten by it. -/
theorem unreported_step {r : Router} (h : r.Named) (op : Op) (id : CommandId) :
    r.unreported id+droppedBy id (op,(r.step op).1)=
      (r.step op).2.unreported id+reportedBy id (op,(r.step op).1)+r.forgottenBy id op := by
  have after := unreported_step_eq r op id
  cases hc : op.concerns id with
  | false =>
    have idle := idle_of_not_concerns (e := (op,(r.step op).1)) hc
    rw [onChannel_of_not_concerns hc] at after
    rw [after,reportedBy,idle.dropped,idle.reports,forgottenBy_of_not_concerns hc]
    rfl
  | true =>
    cases op with
    | add stamp command =>
      have hid : command.id=id := of_decide_eq_true hc
      rw [Op.onChannel,if_pos hid] at after
      rw [after,unreported]
      cases r.channels.get? id <;> rfl
    | remove stamp command =>
      have hid : command.id=id := of_decide_eq_true hc
      rw [Op.onChannel,if_pos hid] at after
      rw [after,forgottenBy,if_pos hid]
      exact (Nat.zero_add _).symm
    | ingest message =>
      have hid : message.command=id := of_decide_eq_true hc
      subst hid
      rw [Op.onChannel,if_pos rfl] at after
      cases hl : r.channels.get? message.command with
      | none =>
        rw [step_ingest_none hl,unreported_none hl,droppedBy,if_pos rfl]
        rfl
      | some c =>
        rw [hl] at after
        rw [after,unreported_some hl,answer_ingest_live hl,droppedBy,if_pos rfl,
          Channel.droppedBytes_ingestOutcome]
        exact (c.unreported_ingest message.text.toList).symm
    | upkeep stamp =>
      have reported : reportedBy id (.upkeep stamp,(r.step (.upkeep stamp)).1)=r.unreported id := by
        have own := filter_upkeep_reports h stamp id
        change (((r.upkeep stamp).1.filter (fun d => decide (d.command=id))).map
          DropReport.droppedBytes).sum=_
        rw [own,unreported]
        cases r.channels.get? id with
        | none => rfl
        | some c => exact c.sum_pending
      rw [reported,unreported_of_upkeep]
      exact (Nat.zero_add _).symm
    | setRateLimit limit => exact (after.trans (unreported_map (fun _ => rfl))).symm
    | setWindowQuota quota => exact (after.trans (unreported_map (fun _ => rfl))).symm
    | setMaxLines maxLines =>
      rw [Op.onChannel] at after
      split at after
      · exact after.symm
      · exact (after.trans (unreported_map (fun _ => rfl))).symm
    | clearCommand name =>
      rw [Op.onChannel,if_pos (of_decide_eq_true hc)] at after
      exact (after.trans (unreported_map (fun _ => rfl))).symm
    | changeStatus stamp name oldStatus newStatus => cases hc
    | clearGlobal => cases hc

theorem unreported_run {r : Router} (h : r.Named) (ops : List Op) (id : CommandId) :
    r.unreported id+((r.past ops).map (droppedBy id)).sum=
      (r.run ops).2.unreported id+((r.past ops).map (reportedBy id)).sum+r.forgotten id ops := by
  induction ops generalizing r with
  | nil => rfl
  | cons op ops ih =>
    have one := unreported_step h op id
    have rest := ih (named_step h op)
    have last : (r.run (op :: ops)).2=((r.step op).2.run ops).2 := rfl
    rw [past_cons,last,forgotten]
    simp only [List.map_append,List.sum_append,List.map_cons,List.map_nil,List.sum_cons,List.sum_nil]
    omega

theorem forgotten_concat (r : Router) (id : CommandId) (ops : List Op) (op : Op) :
    r.forgotten id (ops++[op])=r.forgotten id ops+(r.run ops).2.forgottenBy id op := by
  induction ops generalizing r with
  | nil => exact Nat.add_comm _ _
  | cons first rest ih =>
    rw [List.cons_append,forgotten,ih,← Nat.add_assoc]
    rfl

theorem nothing_forgotten_before {r : Router} {id : CommandId} {before later : List Op}
    (h : r.forgotten id (before++later)=0) : r.forgotten id before=0 := by
  induction later using List.reverseRecOn with
  | nil => rwa [List.append_nil] at h
  | append_singleton later op ih =>
    rw [← List.append_assoc,forgotten_concat] at h
    exact ih (Nat.eq_zero_of_add_eq_zero_right h)

/-- What happened since the last upkeep. -/
def sinceUpkeep (past : List Answered) : List Answered := past.takeWhile (fun e => !e.1.isUpkeep)

/-- As long as nothing is forgotten, all that was dropped since the last upkeep is to be reported. -/
theorem unreported_of_nothing_forgotten {config : RouterConfig} {id : CommandId} {ops : List Op}
    (h : (new config).forgotten id ops=0) :
    ((new config).run ops).2.unreported id=
      ((sinceUpkeep ((new config).past ops)).map (droppedBy id)).sum := by
  induction ops using List.reverseRecOn with
  | nil => rfl
  | append_singleton ops op ih =>
    rw [forgotten_concat] at h
    obtain ⟨before,now⟩ := Nat.add_eq_zero_iff.mp h
    have one := unreported_step (named_run config ops) op id
    rw [ih before,now] at one
    rw [past_concat,run_concat,sinceUpkeep,List.takeWhile_cons]
    cases op with
    | upkeep stamp => exact unreported_of_upkeep _ stamp id
    | _ => exact one.symm.trans (Nat.add_comm _ _)

/-- Nothing is forgotten just when no removal comes after a drop without an upkeep between them. -/
theorem forgotten_eq_zero_iff (config : RouterConfig) (id : CommandId) (ops : List Op) :
    (new config).forgotten id ops=0 ↔
      ∀ before stamp command later,ops=before++.remove stamp command :: later → command.id=id →
        ∀ e∈sinceUpkeep ((new config).past before),droppedBy id e=0 := by
  constructor
  · rintro h before stamp command later rfl hid e he
    have whole : (new config).forgotten id ((before++[.remove stamp command])++later)=0 := by
      rwa [List.append_assoc]
    have upTo := nothing_forgotten_before whole
    rw [forgotten_concat] at upTo
    obtain ⟨earlier,now⟩ := Nat.add_eq_zero_iff.mp upTo
    rw [forgottenBy,if_pos hid,unreported_of_nothing_forgotten earlier,
      List.sum_eq_zero_iff_forall_eq_nat] at now
    exact now _ (List.mem_map_of_mem he)
  · intro h
    induction ops using List.reverseRecOn with
    | nil => rfl
    | append_singleton ops op ih =>
      have earlier := ih (fun before stamp command later hops =>
        h before stamp command (later++[op]) (by rw [hops,List.append_assoc,List.cons_append]))
      rw [forgotten_concat,earlier,Nat.zero_add]
      cases op with
      | remove stamp command =>
        rw [forgottenBy]
        split
        next hid =>
          rw [unreported_of_nothing_forgotten earlier,List.sum_eq_zero_iff_forall_eq_nat]
          intro bytes hb
          obtain ⟨e,he,rfl⟩ := List.mem_map.mp hb
          exact h ops stamp command [] rfl hid e he
        next => rfl
      | _ => rfl

/-- Dropped bytes are reported, except for those that a removal takes away. A run that ends with an
upkeep reports all just when no removal stands between a drop and the next upkeep. -/
theorem dropped_reported_iff (config : RouterConfig) (ops : List Op) (stamp : Stamp)
    (id : CommandId) :
    let past := (new config).past (ops++[.upkeep stamp])
    let dropped := (past.map (droppedBy id)).sum
    let reported := (past.map (reportedBy id)).sum
    dropped=reported+(new config).forgotten id ops ∧
    (dropped=reported ↔ ∀ before stamp command later,ops=before++.remove stamp command :: later →
      command.id=id → ∀ e∈sinceUpkeep ((new config).past before),droppedBy id e=0) := by
  intro past dropped reported
  have balance := unreported_run (named_new config) (ops++[.upkeep stamp]) id
  have start : (new config).unreported id=0 := rfl
  have last : (new config).forgotten id (ops++[.upkeep stamp])=(new config).forgotten id ops :=
    forgotten_concat _ id ops _
  rw [run_concat,unreported_of_upkeep,start,last,Nat.zero_add,Nat.zero_add] at balance
  refine ⟨balance,?_⟩
  rw [← forgotten_eq_zero_iff]
  have split : dropped=reported+(new config).forgotten id ops := balance
  omega

/-- A command that leaves while two bytes of its output are still to be reported, and comes back. -/
def departed : List Op :=
  [.add .masked camera,.ingest ⟨camera.id,"abcdef"⟩,.remove .masked camera,.add .masked camera,
    .ingest ⟨camera.id,"abcdefg"⟩]

/-- The two bytes are never reported, only the three that were dropped after the return. -/
theorem departed_unreported :
    let past := (new (.ofQuota 4 3)).past (departed++[.upkeep .masked])
    (past.map (droppedBy camera.id)).sum=5 ∧
    past.flatMap (reportsBy camera.id)=[⟨camera.id,3⟩] ∧
    (past.map (droppedBy camera.id)).sum≠(past.map (reportedBy camera.id)).sum := by
  decide +kernel

end FleetConsole.Router
