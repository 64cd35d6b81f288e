import FleetConsole.Proofs.Channel
import FleetConsole.Proofs.SortedMap
import FleetConsole.Router.Run

namespace FleetConsole.Router

/-- Every channel stands under the name of its command. -/
def Named (r : Router) : Prop := ∀ id c,r.channels.get? id=some c → c.id=id

/-- Whether an operation is about a command: it names the command, or is about all of them. -/
def Op.concerns (id : CommandId) : Op → Bool
  | .add _ command => decide (command.id=id)
  | .remove _ command => decide (command.id=id)
  | .changeStatus .. => false
  | .ingest message => decide (message.command=id)
  | .upkeep _ => true
  | .setRateLimit _ => true
  | .setWindowQuota _ => true
  | .setMaxLines _ => true
  | .clearGlobal => false
  | .clearCommand name => decide (name=id)

def Op.onConfig (config : RouterConfig) : Op → RouterConfig
  | .setRateLimit limit =>
    { config with rateLimit := some limit, windowQuota := limit.windowQuota }
  | .setWindowQuota quota => { config with rateLimit := none, windowQuota := quota }
  | .setMaxLines maxLines => if maxLines=0 then config else { config with maxLines := maxLines }
  | _ => config

/-- The channel of a command after an operation, from the channel before, if there is one. -/
def Op.onChannel (id : CommandId) (config : RouterConfig) (c : Option Channel) :
    Op → Option Channel
  | .add _ command =>
    if command.id=id then
      some (c.getD (Channel.new id command.exec config.windowQuota config.maxLines))
    else c
  | .remove _ command => if command.id=id then none else c
  | .ingest message =>
    if message.command=id then c.map (fun c => c.ingest message.text.toList) else c
  | .upkeep stamp => c.map (fun c => c.upkeep stamp)
  | .setRateLimit limit => c.map (fun c => c.setQuota limit.windowQuota)
  | .setWindowQuota quota => c.map (fun c => c.setQuota quota)
  | .setMaxLines maxLines => if maxLines=0 then c else c.map (fun c => c.setMaxLines maxLines)
  | .clearCommand name => if name=id then c.map Channel.clear else c
  | _ => c

/-- What an operation answers as far as it concerns a command, from the channel before. -/
def Op.answer (id : CommandId) (c : Option Channel) : Op → Reply
  | .add .. => if c.isSome then .failed (.duplicateCommand id) else .done
  | .remove .. => .found c.isSome
  | .ingest message =>
    .ingested (c.elim .unknownCommand (fun c => c.ingestOutcome message.text.toList))
  | .upkeep _ => .reported (c.elim [] Channel.pending)
  | .setMaxLines maxLines =>
    if maxLines=0 then .failed (.invalidConfig .noRetainedLines) else .done
  | .clearCommand _ => .found c.isSome
  | _ => .done

theorem onChannel_of_not_concerns {op : Op} {id : CommandId} (h : op.concerns id=false)
    (config : RouterConfig) (c : Option Channel) : op.onChannel id config c=c := by
  cases op with
  | add stamp command => exact if_neg (of_decide_eq_false h)
  | remove stamp command => exact if_neg (of_decide_eq_false h)
  | ingest message => exact if_neg (of_decide_eq_false h)
  | clearCommand name => exact if_neg (of_decide_eq_false h)
  | changeStatus stamp name oldStatus newStatus => rfl
  | clearGlobal => rfl
  | upkeep stamp => cases h
  | setRateLimit limit => cases h
  | setWindowQuota quota => cases h
  | setMaxLines maxLines => cases h

theorem onConfig_of_not_concerns {op : Op} {id : CommandId} (h : op.concerns id=false)
    (config : RouterConfig) : op.onConfig config=config := by
  cases op with
  | setRateLimit limit => cases h
  | setWindowQuota quota => cases h
  | setMaxLines maxLines => cases h
  | _ => rfl

/-- The part of an answer that is about a command. -/
def Reply.about (id : CommandId) : Reply → Reply
  | .reported reports => .reported (reports.filter (fun d => decide (d.command=id)))
  | reply => reply

theorem notice_eq (r : Router) (line : List Char) :
    r.notice line={ r with
      global := r.global.appendNotice (Style.runs line)
      styles := (Style.scan r.styles line).2 } := by
  rw [← Style.scan_fst r.styles]
  rfl

theorem deliver_eq (r : Router) (c : Channel) (text : List Char) (h : text≠[]) :
    r.deliver c text=(c.accept (Style.runs text) (Text.utf8Length text),
      { r with
        global := r.global.appendOutput c.id (Style.runs text)
        styles := (Style.scan r.styles text).2 }) := by
  rw [deliver,if_neg h,← Style.scan_fst r.styles]

theorem ingest_none {r : Router} {message : OutputMessage}
    (h : r.channels.get? message.command=none) : r.ingest message=(.unknownCommand,r) := by
  rw [ingest,h]

theorem ingest_some {r : Router} {message : OutputMessage} {c : Channel}
    (h : r.channels.get? message.command=some c) :
    let kept := c.affordable message.text.toList
    r.ingest message=(c.ingestOutcome message.text.toList,
      { r with
        channels := r.channels.insert message.command (c.ingest message.text.toList)
        global := if kept=[] then r.global else r.global.appendOutput c.id (Style.runs kept)
        styles := if kept=[] then r.styles else (Style.scan r.styles kept).2 }) := by
  intro kept
  have hk : kept=message.text.toList.take (Text.fitting c.window.remaining message.text.toList) := rfl
  rw [ingest,h]
  dsimp only
  rw [← hk]
  by_cases he : kept=[]
  · have hd : r.deliver c kept=(c,r) := by rw [deliver,if_pos he]
    rw [hd,Channel.ingest_of_nil he,if_pos he,if_pos he]
    rfl
  · rw [deliver_eq r c kept he,Channel.ingest_of_ne he,if_neg he,if_neg he]
    rfl

theorem upkeepChannel_fst (stamp : Stamp) (u : Upkeep) (c : Channel) :
    (upkeepChannel stamp u c).1=c.upkeep stamp := by
  by_cases h : c.unreported=0
  · rw [upkeepChannel,if_pos h,Channel.upkeep_of_zero h]
  · rw [upkeepChannel,if_neg h,Channel.upkeep_of_ne_zero h,← Style.scan_fst u.styles]

/-- A report in the log of all commands. -/
def announce (stamp : Stamp) (g : GlobalLog Style) (report : DropReport) : GlobalLog Style :=
  g.appendNotice (Style.runs (dropNotice stamp report))

theorem upkeepChannel_snd (stamp : Stamp) (u : Upkeep) (c : Channel) :
    (upkeepChannel stamp u c).2.global=c.pending.foldl (announce stamp) u.global ∧
    (upkeepChannel stamp u c).2.reports=c.pending.reverse++u.reports := by
  by_cases h : c.unreported=0
  · simp [upkeepChannel,Channel.pending,h]
  · simp [upkeepChannel,Channel.pending,h,announce,Style.scan_fst]

theorem foldl_upkeepChannel (stamp : Stamp) (u : Upkeep) (entries : List (CommandId × Channel)) :
    let last := entries.foldl (fun u e => (upkeepChannel stamp u e.2).2) u
    last.global=(entries.flatMap (fun e => e.2.pending)).foldl (announce stamp) u.global ∧
    last.reports=(entries.flatMap (fun e => e.2.pending)).reverse++u.reports := by
  induction entries generalizing u with
  | nil => simp
  | cons e rest ih =>
    obtain ⟨hg,hr⟩ := ih (upkeepChannel stamp u e.2).2
    obtain ⟨eg,er⟩ := upkeepChannel_snd stamp u e.2
    simp only [List.foldl_cons,List.flatMap_cons,List.foldl_append,List.reverse_append]
    exact ⟨by rw [hg,eg],by rw [hr,er,List.append_assoc]⟩

/-- One report for each channel that lost something, in the order of the commands. -/
theorem upkeep_reports (r : Router) (stamp : Stamp) :
    (r.upkeep stamp).1=r.channels.entries.flatMap (fun e => e.2.pending) := by
  have h := (foldl_upkeepChannel stamp ⟨r.global,r.styles,[]⟩ r.channels.entries).2
  have e : (r.upkeep stamp).1=(r.channels.mapWithState
    (fun u _ c => upkeepChannel stamp u c) ⟨r.global,r.styles,[]⟩).2.reports.reverse := rfl
  rw [e,SortedMap.mapWithState_snd,h]
  simp

theorem upkeep_global (r : Router) (stamp : Stamp) :
    (r.upkeep stamp).2.global=(r.upkeep stamp).1.foldl (announce stamp) r.global := by
  have h := (foldl_upkeepChannel stamp ⟨r.global,r.styles,[]⟩ r.channels.entries).1
  have e : (r.upkeep stamp).2.global=(r.channels.mapWithState
    (fun u _ c => upkeepChannel stamp u c) ⟨r.global,r.styles,[]⟩).2.global := rfl
  rw [upkeep_reports,e,SortedMap.mapWithState_snd,h]

theorem get?_upkeep (r : Router) (stamp : Stamp) (id : CommandId) :
    (r.upkeep stamp).2.channels.get? id=(r.channels.get? id).map (fun c => c.upkeep stamp) :=
  SortedMap.get?_mapWithState (f := fun u _ c => upkeepChannel stamp u c)
    (g := fun _ c => c.upkeep stamp) (fun u _ c => upkeepChannel_fst stamp u c) _ _ id

end FleetConsole.Router
