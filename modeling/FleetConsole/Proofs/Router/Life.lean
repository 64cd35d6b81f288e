import FleetConsole.Proofs.Router.Step

namespace FleetConsole.Router

def Op.isUpkeep : Op → Bool
  | .upkeep _ => true
  | _ => false

/-- The quota that an operation puts in force. -/
def Op.newQuota : Op → Option UInt64
  | .setRateLimit limit => some limit.windowQuota
  | .setWindowQuota quota => some quota
  | _ => none

/-- Whether an operation brought a command in. -/
def adds (id : CommandId) : Answered → Bool
  | (.add _ command,.done) => decide (command.id=id)
  | _ => false

/-- What happened since a command was last brought in. -/
def sinceAdd (id : CommandId) (past : List Answered) : List Answered :=
  past.takeWhile (fun e => !adds id e)

theorem sinceAdd_of_adds {id : CommandId} {e : Answered} (h : adds id e=true)
    (past : List Answered) : sinceAdd id (e :: past)=[] := by
  simp [sinceAdd,h]

theorem sinceAdd_of_not_adds {id : CommandId} {e : Answered} (h : adds id e=false)
    (past : List Answered) : sinceAdd id (e :: past)=e :: sinceAdd id past := by
  simp [sinceAdd,h]

/-- How an answered operation meets the channel of a live command, and what it makes of it. -/
inductive Meets (id : CommandId) : Answered → Channel → Channel → Prop where
  | message (text : String) (c : Channel) :
      Meets id (.ingest ⟨id,text⟩,.ingested (c.ingestOutcome text.toList)) c (c.ingest text.toList)
  | upkeep (stamp : Stamp) (reports : List DropReport) (c : Channel)
      (own : reports.filter (fun d => decide (d.command=id))=c.pending) :
      Meets id (.upkeep stamp,.reported reports) c (c.upkeep stamp)
  | quota (op : Op) (quota : UInt64) (c : Channel) (h : op.newQuota=some quota) :
      Meets id (op,.done) c (c.setQuota quota)
  | maxLines (maxLines : Nat) (c : Channel) (h : maxLines≠0) :
      Meets id (.setMaxLines maxLines,.done) c (c.setMaxLines maxLines)
  | noLines (error : ConsoleError) (c : Channel) : Meets id (.setMaxLines 0,.failed error) c c
  | again (stamp : Stamp) (command : CommandInfo) (error : ConsoleError) (c : Channel) :
      Meets id (.add stamp command,.failed error) c c
  | clear (c : Channel) : Meets id (.clearCommand id,.found true) c c.clear
  | elsewhere (e : Answered) (c : Channel) (h : e.1.concerns id=false) : Meets id e c c

theorem adds_of_meets {id : CommandId} {e : Answered} {c c' : Channel} (h : Meets id e c c') :
    adds id e=false := by
  cases h with
  | quota op quota c hq => cases op <;> first | rfl | cases hq
  | elsewhere e c he =>
    obtain ⟨op,reply⟩ := e
    cases op with
    | add stamp command =>
      cases reply with
      | done => exact he
      | _ => rfl
    | _ => rfl
  | _ => rfl

/-- A command live after a step was brought in by it, or met it with the channel it had. -/
theorem live_step {r : Router} (hn : r.Named) {op : Op} {id : CommandId} {c' : Channel}
    (h : (r.step op).2.channels.get? id=some c') :
    (∃ exec,adds id (op,(r.step op).1)=true ∧
      c'=Channel.new id exec r.config.windowQuota r.config.maxLines) ∨
    ∃ c,r.channels.get? id=some c ∧ Meets id (op,(r.step op).1) c c' := by
  have after := get?_step r op id
  rw [h] at after
  cases hc : op.concerns id with
  | false =>
    rw [onChannel_of_not_concerns hc] at after
    exact .inr ⟨c',after.symm,.elsewhere _ c' hc⟩
  | true =>
    cases op with
    | add stamp command =>
      have hid : command.id=id := of_decide_eq_true hc
      subst hid
      rw [Op.onChannel,if_pos rfl] at after
      cases hl : r.channels.get? command.id with
      | none =>
        rw [hl] at after
        rw [step_add_new hl]
        exact .inl ⟨command.exec,decide_eq_true rfl,Option.some.inj after⟩
      | some c =>
        rw [hl] at after
        rw [step_add_live hl]
        obtain rfl : c'=c := Option.some.inj after
        exact .inr ⟨c',rfl,.again stamp command _ c'⟩
    | remove stamp command =>
      rw [Op.onChannel,if_pos (of_decide_eq_true hc)] at after
      cases after
    | ingest message =>
      have hid : message.command=id := of_decide_eq_true hc
      subst hid
      rw [Op.onChannel,if_pos rfl] at after
      obtain ⟨c,hl,rfl⟩ := Option.map_eq_some_iff.mp after.symm
      simp only [step,ingest_some hl]
      exact .inr ⟨c,hl,.message message.text c⟩
    | upkeep stamp =>
      obtain ⟨c,hl,rfl⟩ := Option.map_eq_some_iff.mp after.symm
      have own := filter_upkeep_reports hn stamp id
      rw [hl] at own
      exact .inr ⟨c,hl,.upkeep stamp _ c own⟩
    | setRateLimit limit =>
      obtain ⟨c,hl,rfl⟩ := Option.map_eq_some_iff.mp after.symm
      exact .inr ⟨c,hl,.quota _ limit.windowQuota c rfl⟩
    | setWindowQuota quota =>
      obtain ⟨c,hl,rfl⟩ := Option.map_eq_some_iff.mp after.symm
      exact .inr ⟨c,hl,.quota _ quota c rfl⟩
    | setMaxLines maxLines =>
      rw [Op.onChannel] at after
      by_cases hz : maxLines=0
      · subst hz
        exact .inr ⟨c',after.symm,.noLines _ c'⟩
      · rw [if_neg hz] at after
        obtain ⟨c,hl,rfl⟩ := Option.map_eq_some_iff.mp after.symm
        rw [step_setMaxLines hz]
        exact .inr ⟨c,hl,.maxLines maxLines c hz⟩
    | clearCommand name =>
      have hid : name=id := of_decide_eq_true hc
      subst hid
      rw [Op.onChannel,if_pos rfl] at after
      obtain ⟨c,hl,rfl⟩ := Option.map_eq_some_iff.mp after.symm
      have answer : (r.step (.clearCommand name)).1=.found true := by
        simp only [step,clearCommand,hl]
      rw [answer]
      exact .inr ⟨c,hl,.clear c⟩
    | changeStatus stamp name oldStatus newStatus => cases hc
    | clearGlobal => cases hc

/-- What holds of a channel when its command is brought in, and of the new channel whenever an
operation meets the old one, holds of every live command after every run. -/
theorem live_induction {config : RouterConfig} {id : CommandId}
    {motive : List Op → Channel → Prop}
    (added : ∀ ops op exec,adds id (op,(((new config).run ops).2.step op).1)=true →
      motive (ops++[op]) (Channel.new id exec ((new config).run ops).2.config.windowQuota
        ((new config).run ops).2.config.maxLines))
    (met : ∀ ops op c c',((new config).run ops).2.channels.get? id=some c → motive ops c →
      Meets id (op,(((new config).run ops).2.step op).1) c c' → motive (ops++[op]) c')
    {ops : List Op} {c : Channel} (live : ((new config).run ops).2.channels.get? id=some c) :
    motive ops c := by
  induction ops using List.reverseRecOn generalizing c with
  | nil => cases live
  | append_singleton ops op ih =>
    rw [run_concat] at live
    rcases live_step (named_run config ops) live with ⟨exec,hadd,rfl⟩ | ⟨before,hl,hmeets⟩
    · exact added ops op exec hadd
    · exact met ops op before c hl (ih hl) hmeets

end FleetConsole.Router
