import FleetConsole.Proofs.Router.Fits
import FleetConsole.Proofs.Router.GlobalHistory

namespace FleetConsole

namespace Channel

/-- A channel but for the times at which its bytes were let through. -/
def untimed (c : Channel) : Channel := { c with window := ⟨c.window.quota,[]⟩ }

/-- A text that there is room for. -/
def take (c : Channel) (text : List Char) : Channel :=
  if text=[] then c else c.accept (Style.runs text) (Text.utf8Length text)

theorem untimed_take (c : Channel) (text : List Char) :
    (c.take text).untimed=(c.untimed.take text).untimed := by
  rw [take,take]
  split
  · rfl
  · simp only [untimed,accept,RateWindow.quota_record]
    rfl

theorem ingest_of_room {c : Channel} {text : List Char}
    (room : Text.utf8Length text ≤ c.window.remaining) : c.ingest text=c.take text := by
  obtain ⟨kept,rest⟩ := affordable_of_room room
  rw [ingest,kept,rest,take]
  rfl

end Channel

namespace Router

/-- Two routers that differ at most in the times at which bytes were let through. -/
structure Untimed (r r' : Router) : Prop where
  config : r.config=r'.config
  global : r.global=r'.global
  channels : ∀ id,(r.channels.get? id).map Channel.untimed=(r'.channels.get? id).map Channel.untimed
  named : r.Named
  named' : r'.Named

theorem map_untimed_congr {f g : Channel → Channel} (hf : ∀ c,(f c).untimed=g c.untimed)
    {c c' : Option Channel} (h : c.map Channel.untimed=c'.map Channel.untimed) :
    (c.map f).map Channel.untimed=(c'.map f).map Channel.untimed := by
  have through (c : Option Channel) :
      (c.map f).map Channel.untimed=(c.map Channel.untimed).map g := by
    cases c with
    | none => rfl
    | some c => exact congrArg some (hf c)
  rw [through,through,h]

theorem contains_untimed {r r' : Router} (h : Untimed r r') (id : CommandId) :
    r.channels.contains id=r'.channels.contains id := by
  have same := congrArg Option.isSome (h.channels id)
  rwa [Option.isSome_map,Option.isSome_map] at same

theorem answer_untimed {r r' : Router} (h : Untimed r r') {op : Op} (hu : op.isUpkeep=false)
    (room : r.HasRoom op) (room' : r'.HasRoom op) : (r.step op).1=(r'.step op).1 := by
  cases op with
  | add stamp command =>
    have same := contains_untimed h command.id
    cases hc : r'.channels.contains command.id <;> simp [step,add,settle,same,hc]
  | remove stamp command =>
    have same := contains_untimed h command.id
    cases hc : r'.channels.contains command.id <;> simp [step,remove,same,hc]
  | ingest message =>
    have same := h.channels message.command
    cases hl : r.channels.get? message.command with
    | none =>
      rw [hl] at same
      have hl' : r'.channels.get? message.command=none := by simpa using same.symm
      rw [step_ingest_none hl,step_ingest_none hl']
    | some c =>
      rw [hl] at same
      obtain ⟨c',hl',_⟩ := Option.map_eq_some_iff.mp same.symm
      have fits := Channel.ingestOutcome_of_room (room message c rfl hl)
      have fits' := Channel.ingestOutcome_of_room (room' message c' rfl hl')
      rw [answer_ingest_live hl,answer_ingest_live hl',fits,fits']
  | setMaxLines maxLines =>
    by_cases hz : maxLines=0
    · subst hz
      rfl
    · rw [step_setMaxLines hz,step_setMaxLines hz]
  | clearCommand name =>
    have same := congrArg Option.isSome (h.channels name)
    rw [Option.isSome_map,Option.isSome_map] at same
    cases hl : r.channels.get? name <;> cases hl' : r'.channels.get? name <;>
      simp_all [step,clearCommand]
  | upkeep stamp => cases hu
  | _ => rfl

theorem channel_untimed {r r' : Router} (h : Untimed r r') {op : Op} (hu : op.isUpkeep=false)
    (room : r.HasRoom op) (room' : r'.HasRoom op) (id : CommandId) :
    ((r.step op).2.channels.get? id).map Channel.untimed=
      ((r'.step op).2.channels.get? id).map Channel.untimed := by
  have same := h.channels id
  rw [get?_step,get?_step,← h.config]
  cases op with
  | add stamp command =>
    rw [Op.onChannel,Op.onChannel]
    split
    · cases hl : r.channels.get? id <;> cases hl' : r'.channels.get? id <;> simp_all
    · exact same
  | remove stamp command =>
    rw [Op.onChannel,Op.onChannel]
    split
    · rfl
    · exact same
  | ingest message =>
    rw [Op.onChannel,Op.onChannel]
    split
    next hid =>
      subst hid
      -- with room for all of it, either channel takes the text in the same way
      have whole {r : Router} (room : r.HasRoom (.ingest message)) :
          (r.channels.get? message.command).map (fun c => c.ingest message.text.toList)=
            (r.channels.get? message.command).map (fun c => c.take message.text.toList) := by
        cases hl : r.channels.get? message.command with
        | none => rfl
        | some c => exact congrArg some (Channel.ingest_of_room (room message c rfl hl))
      rw [whole room,whole room']
      exact map_untimed_congr (g := fun c => (c.take message.text.toList).untimed)
        (fun c => c.untimed_take _) same
    next => exact same
  | setRateLimit limit =>
    exact map_untimed_congr (g := fun c => c.setQuota limit.windowQuota) (fun _ => rfl) same
  | setWindowQuota quota => exact map_untimed_congr (g := fun c => c.setQuota quota) (fun _ => rfl) same
  | setMaxLines maxLines =>
    rw [Op.onChannel,Op.onChannel]
    split
    · exact same
    · exact map_untimed_congr (g := fun c => c.setMaxLines maxLines) (fun _ => rfl) same
  | clearCommand name =>
    rw [Op.onChannel,Op.onChannel]
    split
    · exact map_untimed_congr (g := Channel.clear) (fun _ => rfl) same
    · exact same
  | upkeep stamp => cases hu
  | _ => exact same

theorem untimed_step {r r' : Router} (h : Untimed r r') {op : Op} (hu : op.isUpkeep=false)
    (room : r.HasRoom op) (room' : r'.HasRoom op) : Untimed (r.step op).2 (r'.step op).2 where
  config := by rw [config_step,config_step,h.config]
  global := by
    rw [global_step h.named,global_step h.named',answer_untimed h hu room room',h.global]
  channels := channel_untimed h hu room room'
  named := named_step h.named op
  named' := named_step h.named' op

/-- An upkeep with nothing to report does nothing that lasts. -/
theorem upkeep_silent {r : Router} (nothing : ∀ id c,r.channels.get? id=some c → c.unreported=0)
    (stamp : Stamp) : (r.step (.upkeep stamp)).1=.reported [] := by
  have reports : (r.upkeep stamp).1=[] := by
    rw [upkeep_reports,List.flatMap_eq_nil_iff]
    intro e he
    rw [Channel.pending,if_pos (nothing e.1 e.2 (SortedMap.get?_eq_some_iff.mpr he))]
  exact congrArg Reply.reported reports

theorem untimed_upkeep {r r' : Router} (h : Untimed r r')
    (nothing : ∀ id c,r.channels.get? id=some c → c.unreported=0) (stamp : Stamp) :
    Untimed (r.step (.upkeep stamp)).2 r' where
  config := h.config
  global := by
    rw [global_step h.named,upkeep_silent nothing]
    exact h.global
  channels := by
    intro id
    rw [get?_step,← h.channels id,Op.onChannel]
    cases hl : r.channels.get? id with
    | none => rfl
    | some c =>
      have rotated := Channel.upkeep_of_zero (nothing id c hl) stamp
      rw [Option.map_some,Option.map_some,Option.map_some,rotated]
      rfl
  named := named_step h.named _
  named' := h.named'

/-- A message as it met the router, and what became of it. -/
structure Delivery where
  message : OutputMessage
  live : Bool
  outcome : IngestOutcome
  deriving DecidableEq, Repr

/-- All of a message to a live command is accepted. -/
def Delivery.Whole (d : Delivery) : Prop :=
  d.outcome=if d.live then .accepted d.message.text.utf8ByteSize else .unknownCommand

def delivery (r : Router) : Op → List Delivery
  | .ingest message => [⟨message,r.channels.contains message.command,(r.ingest message).1⟩]
  | _ => []

def deliveries (r : Router) : List Op → List Delivery
  | [] => []
  | op :: ops => r.delivery op++(r.step op).2.deliveries ops

theorem deliveries_concat (r : Router) (ops : List Op) (op : Op) :
    r.deliveries (ops++[op])=r.deliveries ops++(r.run ops).2.delivery op := by
  induction ops generalizing r with
  | nil => exact List.append_nil _
  | cons first rest ih =>
    rw [List.cons_append,deliveries,ih,← List.append_assoc]
    rfl

variable {config : RouterConfig} {ops : List Op}

theorem delivery_whole {r : Router} {op : Op} (room : r.HasRoom op) :
    ∀ d∈r.delivery op,d.Whole := by
  cases op with
  | ingest message =>
    intro d hd
    obtain rfl := List.mem_singleton.mp hd
    rw [Delivery.Whole,contains_eq_isSome]
    cases hl : r.channels.get? message.command with
    | none =>
      rw [ingest_none hl]
      rfl
    | some c =>
      rw [ingest_some hl,← Text.utf8Length_toList]
      exact Channel.ingestOutcome_of_room (room message c rfl hl)
  | _ => exact fun d hd => nomatch hd

theorem delivery_untimed {r r' : Router} (h : Untimed r r') {op : Op} (hu : op.isUpkeep=false)
    (room : r.HasRoom op) (room' : r'.HasRoom op) : r.delivery op=r'.delivery op := by
  have same := answer_untimed h hu room room'
  cases op with
  | ingest message =>
    have outcome : (r.ingest message).1=(r'.ingest message).1 := Reply.ingested.inj same
    rw [delivery,delivery,contains_untimed h,outcome]
  | _ => rfl

/-- What an upkeep reported. -/
def Answered.reports : Answered → List DropReport
  | (.upkeep _,.reported reports) => reports
  | _ => []

/-- Where all output fits the quotas, a run is the same without its upkeeps: every message is
accepted whole, and no upkeep reports anything. -/
theorem unticked_same (config : RouterConfig) (ops : List Op) (fits : Fits config (unticked ops)) :
    Untimed ((new config).run ops).2 ((new config).run (unticked ops)).2 ∧
    (new config).deliveries ops=(new config).deliveries (unticked ops) ∧
    (∀ d∈(new config).deliveries ops,d.Whole) ∧
    ∀ e∈(new config).past ops,e.reports=[] := by
  induction ops using List.reverseRecOn with
  | nil =>
    exact ⟨⟨rfl,rfl,fun _ => rfl,named_new config,named_new config⟩,rfl,
      fun d hd => absurd hd List.not_mem_nil,fun e he => absurd he List.not_mem_nil⟩
  | append_singleton ops op ih =>
    obtain ⟨same,delivered,whole,silent⟩ := ih (fits_before fits)
    rw [run_concat,deliveries_concat,past_concat]
    cases hu : op.isUpkeep with
    | true =>
      obtain ⟨stamp,rfl⟩ := exists_of_isUpkeep hu
      have nothing : ∀ id c,((new config).run ops).2.channels.get? id=some c → c.unreported=0 :=
        fun id c live => nothing_unreported (fits_before fits) live
      have answer := upkeep_silent nothing stamp
      have none : ((new config).run ops).2.delivery (.upkeep stamp)=[] := rfl
      rw [unticked_concat_upkeep,none,List.append_nil]
      refine ⟨untimed_upkeep same nothing stamp,delivered,whole,?_⟩
      · rw [answer]
        exact List.forall_mem_cons.mpr ⟨rfl,silent⟩
    | false =>
      obtain ⟨room,room'⟩ := hasRoom_of_fits fits hu
      rw [unticked_concat hu,run_concat,deliveries_concat,← delivered]
      refine ⟨untimed_step same hu room room',?_,?_,?_⟩
      · rw [delivery_untimed same hu room room']
      · intro d hd
        rcases List.mem_append.mp hd with hd | hd
        · exact whole d hd
        · exact delivery_whole room d hd
      · refine List.forall_mem_cons.mpr ⟨?_,silent⟩
        cases op with
        | upkeep stamp => cases hu
        | _ => rfl

end Router

end FleetConsole
