import FleetConsole.Proofs.Router.SlidingWindow

namespace FleetConsole.Router

/-- Bytes of the message for a command that an operation brought. -/
def sentBy (id : CommandId) : Answered → Nat
  | (.ingest message,_) => if message.command=id then message.text.utf8ByteSize else 0
  | _ => 0

/-- Bytes of a command's output that an operation dropped, by its answer. -/
def droppedBy (id : CommandId) : Answered → Nat
  | (.ingest message,.ingested outcome) =>
    if message.command=id then outcome.droppedBytes else 0
  | _ => 0

/-- The reports about a command in the answer of an operation. -/
def reportsBy (id : CommandId) : Answered → List DropReport
  | (.upkeep _,.reported reports) => reports.filter (fun d => decide (d.command=id))
  | _ => []

/-- Operations that change a quota or a number of lines, or clear a log. -/
def Op.adjusts : Op → Bool
  | .setRateLimit _ => true
  | .setWindowQuota _ => true
  | .setMaxLines _ => true
  | .clearGlobal => true
  | .clearCommand _ => true
  | _ => false

/-- The counters of a channel agree with what happened to its command. -/
structure Balanced (id : CommandId) (past : List Answered) (c : Channel) : Prop where
  sent : c.stats.acceptedBytes+c.stats.droppedBytes=(past.map (sentBy id)).sum
  accepted : c.stats.acceptedBytes=(past.map (acceptedBy id)).sum
  dropped : c.stats.droppedBytes=(past.map (droppedBy id)).sum
  reported : c.stats.droppedBytes=
    c.unreported+((past.flatMap (reportsBy id)).map DropReport.droppedBytes).sum
  reports : c.stats.reportCount=UInt32.ofNat (past.flatMap (reportsBy id)).length

theorem balanced_new (id : CommandId) (exec : String) (quota : UInt64) (maxLines : Nat) :
    Balanced id [] (Channel.new id exec quota maxLines) := ⟨rfl,rfl,rfl,rfl,rfl⟩

/-- An operation that is idle for a command: it brings nothing for it and reports nothing. -/
structure Idle (id : CommandId) (e : Answered) : Prop where
  sent : sentBy id e=0
  accepted : acceptedBy id e=0
  dropped : droppedBy id e=0
  reports : reportsBy id e=[]

theorem balanced_of_idle {id : CommandId} {e : Answered} (h : Idle id e) {past : List Answered}
    {c c' : Channel} (b : Balanced id past c) (hs : c'.stats=c.stats)
    (hu : c'.unreported=c.unreported) : Balanced id (e :: past) c' := by
  constructor
  · rw [hs,List.map_cons,List.sum_cons,h.sent,Nat.zero_add]
    exact b.sent
  · rw [hs,List.map_cons,List.sum_cons,h.accepted,Nat.zero_add]
    exact b.accepted
  · rw [hs,List.map_cons,List.sum_cons,h.dropped,Nat.zero_add]
    exact b.dropped
  · rw [hs,hu,List.flatMap_cons,h.reports]
    exact b.reported
  · rw [hs,List.flatMap_cons,h.reports]
    exact b.reports

theorem idle_of_not_concerns {id : CommandId} {e : Answered} (h : e.1.concerns id=false) :
    Idle id e := by
  have accepted := acceptedBy_of_not_concerns h
  obtain ⟨op,reply⟩ := e
  cases op with
  | ingest message =>
    have other : message.command≠id := of_decide_eq_false h
    refine ⟨if_neg other,accepted,?_,rfl⟩
    cases reply with
    | ingested outcome => exact if_neg other
    | _ => rfl
  | upkeep stamp => cases h
  | _ => exact ⟨rfl,accepted,rfl,rfl⟩

theorem balanced_message {id : CommandId} {past : List Answered} {c : Channel}
    (b : Balanced id past c) (text : String) :
    Balanced id ((.ingest ⟨id,text⟩,.ingested (c.ingestOutcome text.toList)) :: past)
      (c.ingest text.toList) := by
  have whole := c.utf8Length_affordable_add_excess text.toList
  rw [Text.utf8Length_toList] at whole
  have stats := c.stats_ingest text.toList
  have sent : sentBy id (.ingest ⟨id,text⟩,.ingested (c.ingestOutcome text.toList))=
      text.utf8ByteSize := if_pos rfl
  have accepted : acceptedBy id (.ingest ⟨id,text⟩,.ingested (c.ingestOutcome text.toList))=
      Text.utf8Length (c.affordable text.toList) :=
    (if_pos rfl).trans (c.acceptedBytes_ingestOutcome _)
  have dropped : droppedBy id (.ingest ⟨id,text⟩,.ingested (c.ingestOutcome text.toList))=
      Text.utf8Length (c.excess text.toList) :=
    (if_pos rfl).trans (c.droppedBytes_ingestOutcome _)
  have reported := b.reported
  constructor
  · have before := b.sent
    rw [stats,List.map_cons,List.sum_cons,sent]
    dsimp only
    omega
  · rw [stats,List.map_cons,List.sum_cons,accepted,← b.accepted]
    exact Nat.add_comm _ _
  · rw [stats,List.map_cons,List.sum_cons,dropped,← b.dropped]
    exact Nat.add_comm _ _
  · rw [stats,Channel.unreported_ingest]
    change c.stats.droppedBytes+_=c.unreported+_+
      ((past.flatMap (reportsBy id)).map DropReport.droppedBytes).sum
    omega
  · rw [stats]
    exact b.reports

theorem balanced_upkeep {id : CommandId} {past : List Answered} {c : Channel}
    (b : Balanced id past c) (stamp : Stamp) {reports : List DropReport}
    (own : reports.filter (fun d => decide (d.command=id))=c.pending) :
    Balanced id ((.upkeep stamp,.reported reports) :: past) (c.upkeep stamp) := by
  have made : reportsBy id (.upkeep stamp,.reported reports)=c.pending := own
  have stats := c.stats_upkeep stamp
  constructor
  · rw [stats]
    exact b.sent.trans (Nat.zero_add _).symm
  · rw [stats]
    exact b.accepted.trans (Nat.zero_add _).symm
  · rw [stats]
    exact b.dropped.trans (Nat.zero_add _).symm
  · rw [stats,c.unreported_upkeep stamp,List.flatMap_cons,made,List.map_append,
      List.sum_append_nat,c.sum_pending,Nat.zero_add]
    exact b.reported
  · rw [stats,List.flatMap_cons,made,List.length_append,UInt32.ofNat_add,← b.reports]
    exact UInt32.add_comm _ _

theorem balanced_of_meets {id : CommandId} {e : Answered} {c c' : Channel} (h : Meets id e c c')
    {past : List Answered} (b : Balanced id past c) : Balanced id (e :: past) c' := by
  cases h with
  | message text c => exact balanced_message b text
  | upkeep stamp reports c own => exact balanced_upkeep b stamp own
  | quota op quota c hq =>
    have idle : Idle id (op,.done) := by cases op <;> first | exact ⟨rfl,rfl,rfl,rfl⟩ | cases hq
    exact balanced_of_idle idle b rfl rfl
  | elsewhere e c he => exact balanced_of_idle (idle_of_not_concerns he) b rfl rfl
  | _ => exact balanced_of_idle ⟨rfl,rfl,rfl,rfl⟩ b rfl rfl

variable {config : RouterConfig} {ops : List Op} {id : CommandId} {c : Channel}

theorem balanced_of_live (live : ((new config).run ops).2.channels.get? id=some c) :
    Balanced id (sinceAdd id ((new config).past ops)) c := by
  refine live_induction (motive := fun ops c =>
    Balanced id (sinceAdd id ((new config).past ops)) c) ?_ ?_ live
  · intro ops op exec hadd
    rw [past_concat,sinceAdd_of_adds hadd]
    exact balanced_new id exec _ _
  · intro ops op c c' hl ih hmeets
    rw [past_concat,sinceAdd_of_not_adds (adds_of_meets hmeets)]
    exact balanced_of_meets hmeets ih

/-- Clearing, a new quota and a new number of lines leave the counters of a channel alone. -/
theorem counters_of_adjusts {r : Router} (live : r.channels.get? id=some c) {op : Op}
    (h : op.adjusts=true) :
    ∃ c',(r.step op).2.channels.get? id=some c' ∧
      c'.stats=c.stats ∧ c'.unreported=c.unreported := by
  rw [get?_step,live]
  cases op with
  | setRateLimit limit => exact ⟨c.setQuota limit.windowQuota,rfl,rfl,rfl⟩
  | setWindowQuota quota => exact ⟨c.setQuota quota,rfl,rfl,rfl⟩
  | setMaxLines maxLines =>
    rw [Op.onChannel]
    split
    · exact ⟨c,rfl,rfl,rfl⟩
    · exact ⟨c.setMaxLines maxLines,rfl,rfl,rfl⟩
  | clearGlobal => exact ⟨c,rfl,rfl,rfl⟩
  | clearCommand name =>
    rw [Op.onChannel]
    split
    · exact ⟨c.clear,rfl,rfl,rfl⟩
    · exact ⟨c,rfl,rfl,rfl⟩
  | _ => cases h

/-- Since a live command was last brought in, what was sent for it was accepted or dropped, and
what was dropped is reported or pending, by its counters as by the answers. -/
theorem bytes_balance (config : RouterConfig) (ops : List Op) (id : CommandId) (c : Channel)
    (live : ((new config).run ops).2.channels.get? id=some c) :
    let past := sinceAdd id ((new config).past ops)
    let reports := past.flatMap (reportsBy id)
    c.stats.acceptedBytes+c.stats.droppedBytes=(past.map (sentBy id)).sum ∧
    c.stats.acceptedBytes=(past.map (acceptedBy id)).sum ∧
    c.stats.droppedBytes=(past.map (droppedBy id)).sum ∧
    c.stats.droppedBytes=c.unreported+(reports.map DropReport.droppedBytes).sum ∧
    c.stats.reportCount=UInt32.ofNat reports.length ∧
    (reports.length<2^32 → c.stats.dropReports=reports.length) ∧
    ∀ op : Op,op.adjusts=true →
      ∃ c',((new config).run (ops++[op])).2.channels.get? id=some c' ∧
        c'.stats=c.stats ∧ c'.unreported=c.unreported := by
  intro past reports
  have balanced := balanced_of_live live
  refine ⟨balanced.sent,balanced.accepted,balanced.dropped,balanced.reported,balanced.reports,?_,?_⟩
  · intro below
    rw [ChannelStats.dropReports,balanced.reports]
    exact UInt32.toNat_ofNat_of_lt' below
  · intro op h
    rw [run_concat]
    exact counters_of_adjusts live h

/-- A quota of four bytes that cuts one message, stops in front of a wide character in the next
and is used up for the last, with a report in between. -/
def rationed : List Op :=
  [.add .masked camera,.ingest ⟨camera.id,"ab"⟩,.ingest ⟨camera.id,"é€"⟩,.upkeep .masked,
    .ingest ⟨camera.id,""⟩,.ingest ⟨camera.id,"xyz"⟩]

theorem bytes_of_rationed :
    ∃ c,((new (.ofQuota 4 3)).run rationed).2.channels.get? camera.id=some c ∧
      c.stats=⟨4,6,1⟩ ∧ c.unreported=3 ∧
      ((sinceAdd camera.id ((new (.ofQuota 4 3)).past rationed)).map (sentBy camera.id)).sum=10 ∧
      ((sinceAdd camera.id ((new (.ofQuota 4 3)).past rationed)).flatMap
        (reportsBy camera.id)).length=1 ∧
      ∃ c',((new (.ofQuota 4 3)).run (rationed++[.clearGlobal])).2.channels.get? camera.id=some c' ∧
        c'.stats=⟨4,6,1⟩ := by
  have found : (((new (.ofQuota 4 3)).run rationed).2.channels.get? camera.id).map
      (fun c => (c.stats,c.unreported))=some (⟨4,6,1⟩,3) := by decide +kernel
  obtain ⟨c,live,counters⟩ := Option.map_eq_some_iff.mp found
  obtain ⟨stats,unreported⟩ := Prod.mk.inj counters
  have few : ((sinceAdd camera.id ((new (.ofQuota 4 3)).past rationed)).flatMap
      (reportsBy camera.id)).length<2^32 := by decide +kernel
  obtain ⟨sent,_,_,_,_,counted,adjusted⟩ := bytes_balance (.ofQuota 4 3) rationed camera.id c live
  rw [stats] at sent counted adjusted
  obtain ⟨c',live',same,_⟩ := adjusted .clearGlobal rfl
  exact ⟨c,live,stats,unreported,sent.symm,(counted few).symm,c',live',same⟩

end FleetConsole.Router
