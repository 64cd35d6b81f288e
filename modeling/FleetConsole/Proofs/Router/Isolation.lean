import FleetConsole.Proofs.Router.Step

namespace FleetConsole.Router

/-- Two routers that one command cannot tell apart. -/
structure Alike (id : CommandId) (r r' : Router) : Prop where
  channel : r.channels.get? id=r'.channels.get? id
  config : r.config=r'.config
  named : r.Named
  named' : r'.Named

theorem alike_refl {r : Router} (h : r.Named) (id : CommandId) : Alike id r r :=
  ⟨rfl,rfl,h,h⟩

theorem alike_step {id : CommandId} {r r' : Router} (h : Alike id r r') (op : Op) :
    Alike id (r.step op).2 (r'.step op).2 where
  channel := by rw [get?_step,get?_step,h.channel,h.config]
  config := by rw [config_step,config_step,h.config]
  named := named_step h.named op
  named' := named_step h.named' op

theorem alike_step_left {id : CommandId} {r r' : Router} (h : Alike id r r') {op : Op}
    (ho : op.concerns id=false) : Alike id (r.step op).2 r' where
  channel := by rw [get?_step,onChannel_of_not_concerns ho,h.channel]
  config := by rw [config_step,onConfig_of_not_concerns ho,h.config]
  named := named_step h.named op
  named' := h.named'

theorem answer_alike {id : CommandId} {r r' : Router} (h : Alike id r r') {op : Op}
    (ho : op.concerns id=true) : (r.step op).1.about id=(r'.step op).1.about id := by
  rw [answer_step h.named ho,answer_step h.named' ho,h.channel]

/-- What a run answers to the operations about a command, as far as it concerns that command. -/
def answersTo (r : Router) (id : CommandId) (ops : List Op) : List Reply :=
  ((ops.zip (r.run ops).1).filter (fun e => e.1.concerns id)).map (fun e => e.2.about id)

theorem answersTo_cons (r : Router) (id : CommandId) (op : Op) (ops : List Op) :
    r.answersTo id (op :: ops)=
      (if op.concerns id then [(r.step op).1.about id] else [])++(r.step op).2.answersTo id ops := by
  simp only [answersTo,run,List.zip_cons_cons,List.filter_cons]
  split <;> rfl

theorem run_alike {id : CommandId} {r r' : Router} (h : Alike id r r') (ops : List Op) :
    Alike id (r.run ops).2 (r'.run (ops.filter (Op.concerns id))).2 ∧
    r.answersTo id ops=r'.answersTo id (ops.filter (Op.concerns id)) := by
  induction ops generalizing r r' with
  | nil => exact ⟨h,rfl⟩
  | cons op ops ih =>
    rw [answersTo_cons]
    cases ho : op.concerns id with
    | true =>
      obtain ⟨hs,ha⟩ := ih (alike_step h op)
      rw [List.filter_cons_of_pos ho,answersTo_cons,ho,ha,answer_alike h ho]
      exact ⟨hs,rfl⟩
    | false =>
      obtain ⟨hs,ha⟩ := ih (alike_step_left h ho)
      rw [List.filter_cons_of_neg (by simp [ho]),ha]
      exact ⟨hs,rfl⟩

/-- Two alike routers stay so under the same operations. -/
theorem run_alike_same {id : CommandId} {r r' : Router} (h : Alike id r r') (ops : List Op) :
    (r.run ops).2.channels.get? id=(r'.run ops).2.channels.get? id ∧
    r.answersTo id ops=r'.answersTo id ops := by
  have left := run_alike h ops
  have right := run_alike (alike_refl h.named' id) ops
  exact ⟨left.1.channel.trans right.1.channel.symm,left.2.trans right.2.symm⟩

/-- A router in which a command is not live looks to it like a new one. -/
theorem alike_new {id : CommandId} {r : Router} (hn : r.Named) (h : r.channels.get? id=none) :
    Alike id r (new r.config) where
  channel := h
  config := rfl
  named := hn
  named' := named_new r.config

theorem get?_of_add_done {r : Router} {stamp : Stamp} {command : CommandInfo}
    (h : (r.step (.add stamp command)).1=.done) : r.channels.get? command.id=none := by
  cases hl : r.channels.get? command.id with
  | none => rfl
  | some c =>
    rw [step_add_live hl] at h
    cases h

/-- A channel and the answers about it come from the operations about its command and about all
commands alone, since the latest addition from the configuration at that moment. -/
theorem commands_isolated (config : RouterConfig) (ops : List Op) (id : CommandId) :
    ((new config).run ops).2.channels.get? id=
      ((new config).run (ops.filter (Op.concerns id))).2.channels.get? id ∧
    (new config).answersTo id ops=(new config).answersTo id (ops.filter (Op.concerns id)) ∧
    ∀ (before later : List Op) (stamp : Stamp) (command : CommandInfo),
      ops=before++.add stamp command :: later → command.id=id →
      let r := ((new config).run before).2
      (r.step (.add stamp command)).1=.done →
      ((new config).run ops).2.channels.get? id=
        ((new r.config).run (.add stamp command :: later)).2.channels.get? id ∧
      r.answersTo id (.add stamp command :: later)=
        (new r.config).answersTo id (.add stamp command :: later) := by
  have shortened := run_alike (alike_refl (named_new config) id) ops
  refine ⟨shortened.1.channel,shortened.2,?_⟩
  intro before later stamp command hops hid r hadd
  have absent : r.channels.get? id=none := hid ▸ get?_of_add_done hadd
  have fresh := alike_new (named_run config before) absent
  have same := run_alike_same fresh (.add stamp command :: later)
  have whole : ((new config).run ops).2=(r.run (.add stamp command :: later)).2 := by
    rw [hops,run_append]
  rw [whole]
  exact same

/-- A command loses output, is removed and comes back under a lower quota. -/
def removal : List Op :=
  [.add .masked radar,.add .masked camera,.ingest ⟨camera.id,"abcdef"⟩,.setWindowQuota 2,
    .remove .masked camera]

def comeback : List Op :=
  [.ingest ⟨radar.id,"xy"⟩,.ingest ⟨camera.id,"abc"⟩,.upkeep .masked]

theorem comeback_isolated :
    (((new (.ofQuota 4 3)).run removal).2.step (.add .masked camera)).1=.done ∧
    ((new (.ofQuota 4 3)).run (removal++.add .masked camera :: comeback)).2.channels.get? camera.id=
      ((new ((new (.ofQuota 4 3)).run removal).2.config).run
        (.add .masked camera :: comeback)).2.channels.get? camera.id := by
  have added : (((new (.ofQuota 4 3)).run removal).2.step (.add .masked camera)).1=.done := by
    decide +kernel
  obtain ⟨_,_,restart⟩ :=
    commands_isolated (.ofQuota 4 3) (removal++.add .masked camera :: comeback) camera.id
  exact ⟨added,(restart removal comeback .masked camera rfl rfl added).1⟩

end FleetConsole.Router
