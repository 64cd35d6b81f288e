import FleetConsole.Proofs.Router.Effect
import FleetConsole.Proofs.Router.History
import Mathlib.Data.List.Basic

namespace FleetConsole.Router

theorem contains_eq_isSome (r : Router) (id : CommandId) :
    r.channels.contains id=(r.channels.get? id).isSome := rfl

theorem step_add_live {r : Router} {command : CommandInfo} {c : Channel}
    (h : r.channels.get? command.id=some c) (stamp : Stamp) :
    r.step (.add stamp command)=(.failed (.duplicateCommand command.id),r) := by
  have hc : r.channels.contains command.id=true := by rw [contains_eq_isSome,h,Option.isSome_some]
  simp only [step,add,hc,if_true,settle]

theorem step_add_new {r : Router} {command : CommandInfo}
    (h : r.channels.get? command.id=none) (stamp : Stamp) :
    r.step (.add stamp command)=(.done,{ r with
      channels := r.channels.insert command.id
        (Channel.new command.id command.exec r.config.windowQuota r.config.maxLines)
      global := r.global.appendNotice (Style.runs (addedNotice stamp command))
      styles := (Style.scan r.styles (addedNotice stamp command)).2 }) := by
  have hc : r.channels.contains command.id=false := by rw [contains_eq_isSome,h,Option.isSome_none]
  simp only [step,add,hc,Bool.false_eq_true,if_false,settle,notice_eq]

theorem step_remove_live {r : Router} {command : CommandInfo} {c : Channel}
    (h : r.channels.get? command.id=some c) (stamp : Stamp) :
    r.step (.remove stamp command)=(.found true,{ r with
      channels := r.channels.erase command.id
      global := r.global.appendNotice (Style.runs (removedNotice stamp command))
      styles := (Style.scan r.styles (removedNotice stamp command)).2 }) := by
  have hc : r.channels.contains command.id=true := by rw [contains_eq_isSome,h,Option.isSome_some]
  simp only [step,remove,hc,if_true,notice_eq]

theorem step_remove_none {r : Router} {command : CommandInfo}
    (h : r.channels.get? command.id=none) (stamp : Stamp) :
    r.step (.remove stamp command)=(.found false,r) := by
  have hc : r.channels.contains command.id=false := by rw [contains_eq_isSome,h,Option.isSome_none]
  simp only [step,remove,hc,Bool.false_eq_true,if_false]

theorem step_changeStatus (r : Router) (stamp : Stamp) (id : CommandId)
    (oldStatus newStatus : CommandStatus) :
    r.step (.changeStatus stamp id oldStatus newStatus)=(.done,{ r with
      global := r.global.appendNotice (Style.runs (statusNotice stamp id newStatus))
      styles := (Style.scan r.styles (statusNotice stamp id newStatus)).2 }) := by
  simp only [step,changeStatus,notice_eq]

theorem step_ingest_none {r : Router} {message : OutputMessage}
    (h : r.channels.get? message.command=none) :
    r.step (.ingest message)=(.ingested .unknownCommand,r) := by
  simp only [step,ingest_none h]

theorem answer_ingest_live {r : Router} {message : OutputMessage} {c : Channel}
    (h : r.channels.get? message.command=some c) :
    (r.step (.ingest message)).1=.ingested (c.ingestOutcome message.text.toList) := by
  simp only [step,ingest_some h]

theorem step_setMaxLines_zero (r : Router) :
    r.step (.setMaxLines 0)=(.failed (.invalidConfig .noRetainedLines),r) := rfl

theorem step_setMaxLines {maxLines : Nat} (h : maxLines≠0) (r : Router) :
    r.step (.setMaxLines maxLines)=(.done,{ r with
      config := { r.config with maxLines := maxLines }
      global := r.global.setMaxLines maxLines
      channels := r.channels.mapValues (fun _ c => c.setMaxLines maxLines) }) := by
  simp only [step,setMaxLines,h,if_false,settle]

theorem config_step (r : Router) (op : Op) : (r.step op).2.config=op.onConfig r.config := by
  cases op with
  | add stamp command =>
    cases h : r.channels.get? command.id with
    | none => rw [step_add_new h]; rfl
    | some c => rw [step_add_live h]; rfl
  | remove stamp command =>
    cases h : r.channels.get? command.id with
    | none => rw [step_remove_none h]; rfl
    | some c => rw [step_remove_live h]; rfl
  | ingest message =>
    cases h : r.channels.get? message.command with
    | none => rw [step_ingest_none h]; rfl
    | some c => simp only [step,ingest_some h,Op.onConfig]
  | setMaxLines maxLines =>
    by_cases h : maxLines=0
    · subst h
      rfl
    · simp only [step_setMaxLines h,Op.onConfig,h,if_false]
  | clearCommand id =>
    cases h : r.channels.get? id <;> simp only [step,clearCommand,h,Op.onConfig]
  | _ => rfl

/-- One step, seen from one command. -/
theorem get?_step (r : Router) (op : Op) (id : CommandId) :
    (r.step op).2.channels.get? id=op.onChannel id r.config (r.channels.get? id) := by
  cases op with
  | add stamp command =>
    rw [Op.onChannel]
    cases h : r.channels.get? command.id with
    | none =>
      rw [step_add_new h]
      have hi := SortedMap.get?_insert r.channels command.id id
        (Channel.new command.id command.exec r.config.windowQuota r.config.maxLines)
      by_cases e : command.id=id
      · subst e
        rw [if_pos rfl] at hi ⊢
        rw [h]
        exact hi
      · rw [if_neg e] at hi ⊢
        exact hi
    | some c =>
      rw [step_add_live h]
      by_cases e : command.id=id
      · subst e
        rw [if_pos rfl,h,Option.getD_some]
      · rw [if_neg e]
  | remove stamp command =>
    rw [Op.onChannel]
    cases h : r.channels.get? command.id with
    | none =>
      rw [step_remove_none h]
      by_cases e : command.id=id
      · subst e
        rw [if_pos rfl,h]
      · rw [if_neg e]
    | some c =>
      rw [step_remove_live h]
      exact SortedMap.get?_erase r.channels command.id id
  | changeStatus stamp name oldStatus newStatus =>
    rw [step_changeStatus]
    rfl
  | ingest message =>
    rw [Op.onChannel]
    cases h : r.channels.get? message.command with
    | none => rw [step_ingest_none h,SortedMap.ite_map_get?_of_none h]
    | some c =>
      have hi := SortedMap.get?_insert_of_get? h (fun c => c.ingest message.text.toList) id
      simp only [step,ingest_some h]
      exact hi
  | upkeep stamp => exact get?_upkeep r stamp id
  | setRateLimit limit => exact SortedMap.get?_mapValues _ r.channels id
  | setWindowQuota quota => exact SortedMap.get?_mapValues _ r.channels id
  | setMaxLines maxLines =>
    rw [Op.onChannel]
    by_cases hz : maxLines=0
    · subst hz
      rw [step_setMaxLines_zero,if_pos rfl]
    · rw [step_setMaxLines hz,if_neg hz]
      exact SortedMap.get?_mapValues _ r.channels id
  | clearGlobal => rfl
  | clearCommand name =>
    rw [Op.onChannel]
    cases h : r.channels.get? name with
    | none =>
      rw [SortedMap.ite_map_get?_of_none h]
      simp only [step,clearCommand,h]
    | some c =>
      have hi := SortedMap.get?_insert_of_get? h Channel.clear id
      simp only [step,clearCommand,h]
      exact hi

theorem named_new (config : RouterConfig) : (new config).Named := by
  intro id c h
  cases h

theorem named_step {r : Router} (h : r.Named) (op : Op) : (r.step op).2.Named := by
  intro id c hc
  have keeps (f : Channel → Channel) (hf : ∀ c,(f c).id=c.id)
      (hm : (r.channels.get? id).map f=some c) : c.id=id := by
    obtain ⟨d,hd,rfl⟩ := Option.map_eq_some_iff.mp hm
    rw [hf,h id d hd]
  rw [get?_step] at hc
  cases op with
  | add stamp command =>
    rw [Op.onChannel] at hc
    split at hc
    · cases hd : r.channels.get? id with
      | none =>
        rw [hd,Option.getD_none] at hc
        cases hc
        rfl
      | some d =>
        rw [hd,Option.getD_some] at hc
        exact h id c (hd.trans hc)
    · exact h id c hc
  | remove stamp command =>
    rw [Op.onChannel] at hc
    split at hc
    · cases hc
    · exact h id c hc
  | ingest message =>
    rw [Op.onChannel] at hc
    split at hc
    · exact keeps (fun c => c.ingest message.text.toList) (fun c => c.id_ingest _) hc
    · exact h id c hc
  | upkeep stamp => exact keeps (fun c => c.upkeep stamp) (fun c => c.id_upkeep stamp) hc
  | setRateLimit limit => exact keeps (fun c => c.setQuota limit.windowQuota) (fun _ => rfl) hc
  | setWindowQuota quota => exact keeps (fun c => c.setQuota quota) (fun _ => rfl) hc
  | setMaxLines maxLines =>
    rw [Op.onChannel] at hc
    split at hc
    · exact h id c hc
    · exact keeps (fun c => c.setMaxLines maxLines) (fun _ => rfl) hc
  | clearCommand name =>
    rw [Op.onChannel] at hc
    split at hc
    · exact keeps Channel.clear (fun _ => rfl) hc
    · exact h id c hc
  | _ => exact h id c hc

theorem named_run (config : RouterConfig) (ops : List Op) : ((new config).run ops).2.Named :=
  run_induction (motive := fun _ r => r.Named) (named_new config)
    (fun _ _ op h => named_step h op) ops

private theorem flatMap_ite {α β : Type} (p : α → Bool) (f : α → List β) (l : List α) :
    l.flatMap (fun a => if p a then f a else [])=(l.filter p).flatMap f := by
  induction l with
  | nil => rfl
  | cons a rest ih => cases h : p a <;> simp [h,ih]

/-- Of an upkeep's reports, those of one command are what its channel had pending. -/
theorem filter_upkeep_reports {r : Router} (h : r.Named) (stamp : Stamp) (id : CommandId) :
    (r.upkeep stamp).1.filter (fun d => decide (d.command=id))=
      (r.channels.get? id).elim [] Channel.pending := by
  have own : ∀ e∈r.channels.entries,
      e.2.pending.filter (fun d => decide (d.command=id))=
        if decide (e.1=id) then e.2.pending else [] := by
    intro e he
    have hn := h e.1 e.2 (SortedMap.get?_eq_some_iff.mpr he)
    rw [Channel.pending]
    by_cases hz : e.2.unreported=0
    · simp [hz]
    · by_cases hi : e.1=id <;> simp [hz,hi,hn]
  rw [upkeep_reports,List.filter_flatMap,List.flatMap_congr own,flatMap_ite,
    SortedMap.filter_entries_eq]
  cases r.channels.get? id <;> simp

theorem answer_step {r : Router} (h : r.Named) {op : Op} {id : CommandId}
    (hc : op.concerns id=true) :
    (r.step op).1.about id=op.answer id (r.channels.get? id) := by
  cases op with
  | add stamp command =>
    have e : command.id=id := of_decide_eq_true hc
    subst e
    rw [Op.answer]
    cases hl : r.channels.get? command.id with
    | none => rw [step_add_new hl]; rfl
    | some c => rw [step_add_live hl]; rfl
  | remove stamp command =>
    have e : command.id=id := of_decide_eq_true hc
    subst e
    rw [Op.answer]
    cases hl : r.channels.get? command.id with
    | none => rw [step_remove_none hl]; rfl
    | some c => rw [step_remove_live hl]; rfl
  | ingest message =>
    have e : message.command=id := of_decide_eq_true hc
    subst e
    rw [Op.answer]
    cases hl : r.channels.get? message.command with
    | none => rw [step_ingest_none hl]; rfl
    | some c => simp only [step,ingest_some hl]; rfl
  | upkeep stamp => exact congrArg Reply.reported (filter_upkeep_reports h stamp id)
  | setMaxLines maxLines =>
    rw [Op.answer]
    by_cases hz : maxLines=0
    · subst hz
      rfl
    · rw [step_setMaxLines hz,if_neg hz]
      rfl
  | clearCommand name =>
    have e : name=id := of_decide_eq_true hc
    subst e
    rw [Op.answer]
    cases hl : r.channels.get? name <;> simp only [step,clearCommand,hl] <;> rfl
  | changeStatus stamp name oldStatus newStatus => cases hc
  | clearGlobal => cases hc
  | _ => rfl

end FleetConsole.Router
