import FleetConsole.Proofs.Router.SlidingWindow

namespace FleetConsole

namespace RateWindow

/-- A window that let no more through in any slice than another one. Its quota may be used up
sooner: what the other one used more is no more than its quota is larger. -/
structure Trails (w w' : RateWindow) : Prop where
  slices : List.Forall₂ (fun bytes bytes' => bytes ≤ bytes') w.slices w'.slices
  room : w'.used+w.quota.toNat ≤ w.used+w'.quota.toNat

variable {w w' : RateWindow}

theorem trails_new {quota quota' : UInt64} (raised : quota ≤ quota') :
    (new quota).Trails (new quota') where
  slices := List.forall₂_same.mpr (fun bytes _ => Nat.le_refl bytes)
  room := Nat.add_le_add_left raised 0

theorem Trails.remaining_le (h : w.Trails w') : w.remaining ≤ w'.remaining := by
  have room := h.room
  rw [remaining,remaining]
  omega

/-- Of a message both windows take what they have room for. -/
theorem trails_record (h : w.Trails w') (size : Nat) :
    (w.record (min w.remaining size)).Trails (w'.record (min w'.remaining size)) := by
  have more := h.remaining_le
  obtain ⟨quota,slices⟩ := w
  obtain ⟨quota',slices'⟩ := w'
  obtain ⟨each,room⟩ := h
  cases each with
  | nil => exact ⟨.nil,room⟩
  | cons first older =>
    refine ⟨.cons (by omega) older,?_⟩
    simp only [record,remaining,used_eq_sum,List.sum_cons] at room ⊢
    omega

theorem sum_dropLast_le {slices slices' : List Nat}
    (h : List.Forall₂ (fun bytes bytes' => bytes ≤ bytes') slices slices') :
    slices'.dropLast.sum+slices.sum ≤ slices'.sum+slices.dropLast.sum := by
  induction h with
  | nil => exact Nat.le_refl _
  | cons first older ih =>
    cases older with
    | nil => simpa using first
    | cons second older =>
      simp only [List.dropLast_cons_cons,List.sum_cons] at ih ⊢
      omega

theorem trails_rotate (h : w.Trails w') : w.rotate.Trails w'.rotate where
  slices := by
    have kept := List.forall₂_take (w.slices.length-1) h.slices
    rw [← List.dropLast_eq_take,h.slices.length_eq,← List.dropLast_eq_take] at kept
    exact .cons (Nat.le_refl 0) kept
  room := by
    have lost := sum_dropLast_le h.slices
    have room := h.room
    simp only [rotate,used_eq_sum,List.sum_cons] at room ⊢
    omega

end RateWindow

namespace Channel

/-- A channel that had the same sent to it as another one and let no more of it through. -/
structure Trails (c c' : Channel) : Prop where
  window : c.window.Trails c'.window
  accepted : c.stats.acceptedBytes ≤ c'.stats.acceptedBytes
  sent : c.stats.acceptedBytes+c.stats.droppedBytes=
    c'.stats.acceptedBytes+c'.stats.droppedBytes

variable {c c' : Channel}

theorem trails_new (id : CommandId) (exec : String) {quota quota' : UInt64}
    (raised : quota ≤ quota') (maxLines maxLines' : Nat) :
    (new id exec quota maxLines).Trails (new id exec quota' maxLines') :=
  ⟨RateWindow.trails_new raised,Nat.le_refl 0,rfl⟩

theorem utf8Length_affordable_of_single (c : Channel) {text : List Char}
    (single : ∀ d∈text,d.utf8Size=1) :
    Text.utf8Length (c.affordable text)=min c.window.remaining text.length := by
  have kept : ∀ d∈c.affordable text,d.utf8Size=1 := by
    intro d member
    exact single d (List.mem_of_mem_take member)
  rw [Text.utf8Length_of_single kept,affordable,Text.fitting_of_single single,List.length_take]
  omega

theorem Trails.affordable_le (h : c.Trails c') {text : List Char}
    (single : ∀ d∈text,d.utf8Size=1) :
    Text.utf8Length (c.affordable text) ≤ Text.utf8Length (c'.affordable text) := by
  have more := h.window.remaining_le
  rw [utf8Length_affordable_of_single c single,utf8Length_affordable_of_single c' single]
  omega

theorem trails_ingest (h : c.Trails c') {text : List Char} (single : ∀ d∈text,d.utf8Size=1) :
    (c.ingest text).Trails (c'.ingest text) where
  window := by
    have recorded := RateWindow.trails_record h.window text.length
    rwa [window_ingest,window_ingest,utf8Length_affordable_of_single c single,
      utf8Length_affordable_of_single c' single]
  accepted := by
    rw [stats_ingest,stats_ingest]
    exact Nat.add_le_add h.accepted (h.affordable_le single)
  sent := by
    have whole := c.utf8Length_affordable_add_excess text
    have whole' := c'.utf8Length_affordable_add_excess text
    have sent := h.sent
    rw [stats_ingest,stats_ingest]
    dsimp only
    omega

theorem trails_upkeep (h : c.Trails c') (stamp : Stamp) :
    (c.upkeep stamp).Trails (c'.upkeep stamp) where
  window := by
    rw [window_upkeep,window_upkeep]
    exact RateWindow.trails_rotate h.window
  accepted := by
    rw [stats_upkeep,stats_upkeep]
    exact h.accepted
  sent := by
    rw [stats_upkeep,stats_upkeep]
    exact h.sent

end Channel

namespace Router

/-- An operation that leaves the quota as it is and a command where it is, and brings the command
characters of one byte only. -/
def Op.Steady (id : CommandId) : Op → Prop
  | .remove _ command => command.id≠id
  | .ingest message => message.command=id → ∀ d∈message.text.toList,d.utf8Size=1
  | .setRateLimit _ => False
  | .setWindowQuota _ => False
  | _ => True

variable {id : CommandId} {c c' : Channel}

theorem trails_onChannel (h : c.Trails c') {op : Op} (steady : op.Steady id)
    (config config' : RouterConfig) :
    ∃ d d',op.onChannel id config (some c)=some d ∧ op.onChannel id config' (some c')=some d' ∧
      d.Trails d' := by
  cases op with
  | add stamp command =>
    refine ⟨c,c',?_,?_,h⟩ <;> simp [Op.onChannel]
  | remove stamp command =>
    have other : command.id≠id := steady
    exact ⟨c,c',if_neg other,if_neg other,h⟩
  | ingest message =>
    by_cases own : message.command=id
    · exact ⟨_,_,if_pos own,if_pos own,Channel.trails_ingest h (steady own)⟩
    · exact ⟨c,c',if_neg own,if_neg own,h⟩
  | upkeep stamp => exact ⟨_,_,rfl,rfl,Channel.trails_upkeep h stamp⟩
  | setRateLimit limit => exact steady.elim
  | setWindowQuota quota => exact steady.elim
  | setMaxLines maxLines =>
    by_cases zero : maxLines=0
    · exact ⟨c,c',if_pos zero,if_pos zero,h⟩
    · exact ⟨_,_,if_neg zero,if_neg zero,⟨h.window,h.accepted,h.sent⟩⟩
  | clearCommand name =>
    by_cases own : name=id
    · exact ⟨_,_,if_pos own,if_pos own,⟨h.window,h.accepted,h.sent⟩⟩
    · exact ⟨c,c',if_neg own,if_neg own,h⟩
  | changeStatus stamp name oldStatus newStatus => exact ⟨c,c',rfl,rfl,h⟩
  | clearGlobal => exact ⟨c,c',rfl,rfl,h⟩

theorem trails_run {r r' : Router} (live : r.channels.get? id=some c)
    (live' : r'.channels.get? id=some c') (h : c.Trails c') {ops : List Op}
    (steady : ∀ op∈ops,op.Steady id) :
    ∃ d d',(r.run ops).2.channels.get? id=some d ∧ (r'.run ops).2.channels.get? id=some d' ∧
      d.Trails d' := by
  induction ops generalizing r r' c c' with
  | nil => exact ⟨c,c',live,live',h⟩
  | cons op ops ih =>
    obtain ⟨first,others⟩ := List.forall_mem_cons.mp steady
    obtain ⟨d,d',after,after',trails⟩ := trails_onChannel h first r.config r'.config
    rw [← live,← get?_step] at after
    rw [← live',← get?_step] at after'
    exact ih after after' trails others

theorem get?_add (config : RouterConfig) (stamp : Stamp) (command : CommandInfo) :
    ((new config).step (.add stamp command)).2.channels.get? command.id=
      some (Channel.new command.id command.exec config.windowQuota config.maxLines) := by
  rw [get?_step]
  exact if_pos rfl

theorem acceptedBytes_ingest {r : Router} (live : r.channels.get? id=some c) (text : String) :
    (r.ingest ⟨id,text⟩).1.acceptedBytes=Text.utf8Length (c.affordable text.toList) := by
  have found : r.channels.get? (⟨id,text⟩ : OutputMessage).command=some c := live
  rw [ingest_some found,Channel.acceptedBytes_ingestOutcome]

/-- At every moment of a command's stay no fewer of its bytes have been accepted under the larger
quota and no more dropped, and no less would be accepted of the next message. -/
theorem raised_quota_costs_nothing {config config' : RouterConfig}
    (raised : config.windowQuota ≤ config'.windowQuota) (stamp : Stamp) (command : CommandInfo)
    {ops : List Op} (steady : ∀ op∈ops,op.Steady command.id) :
    ∀ front,front <+: ops →
      let r := ((new config).run (.add stamp command :: front)).2
      let r' := ((new config').run (.add stamp command :: front)).2
      ∃ c c',r.channels.get? command.id=some c ∧ r'.channels.get? command.id=some c' ∧
        c.stats.acceptedBytes ≤ c'.stats.acceptedBytes ∧
        c'.stats.droppedBytes ≤ c.stats.droppedBytes ∧
        ∀ text : String,(∀ d∈text.toList,d.utf8Size=1) →
          (r.ingest ⟨command.id,text⟩).1.acceptedBytes ≤
            (r'.ingest ⟨command.id,text⟩).1.acceptedBytes := by
  intro front hp r r'
  have start := Channel.trails_new command.id command.exec raised config.maxLines config'.maxLines
  have steady' : ∀ op∈front,op.Steady command.id := fun op member => steady op (hp.mem member)
  obtain ⟨c,c',live,live',trails⟩ : ∃ c c',r.channels.get? command.id=some c ∧
      r'.channels.get? command.id=some c' ∧ c.Trails c' :=
    trails_run (get?_add config stamp command) (get?_add config' stamp command) start steady'
  have accepted := trails.accepted
  have sent := trails.sent
  refine ⟨c,c',live,live',accepted,by omega,?_⟩
  intro text single
  rw [acceptedBytes_ingest live,acceptedBytes_ingest live']
  exact trails.affordable_le single

/-- A burst that fits neither quota, and more of it before its slice is forgotten. -/
def bursts : List Op :=
  [.ingest ⟨camera.id,"abcdef"⟩,.upkeep .masked,.ingest ⟨camera.id,"ghi"⟩,.upkeep .masked,
    .upkeep .masked,.upkeep .masked,.upkeep .masked,.upkeep .masked,.ingest ⟨camera.id,"jklm"⟩]

theorem raised_quota_of_bursts :
    (3 : UInt64) ≤ 5 ∧ (∀ op∈bursts,op.Steady camera.id) ∧
      ∃ c c',((new (.ofQuota 3 9)).run (.add .masked camera :: bursts)).2.channels.get? camera.id=
          some c ∧
        ((new (.ofQuota 5 9)).run (.add .masked camera :: bursts)).2.channels.get? camera.id=
          some c' ∧
        c.stats.acceptedBytes ≤ c'.stats.acceptedBytes ∧
        c'.stats.droppedBytes ≤ c.stats.droppedBytes := by
  have raised : (RouterConfig.ofQuota 3 9).windowQuota ≤
      (RouterConfig.ofQuota 5 9).windowQuota := by decide
  have steady : ∀ op∈bursts,op.Steady camera.id := by simp [bursts,Op.Steady,Char.utf8Size]
  obtain ⟨c,c',live,live',accepted,dropped,_⟩ :=
    raised_quota_costs_nothing raised .masked camera steady bursts (List.prefix_refl _)
  exact ⟨raised,steady,c,c',live,live',accepted,dropped⟩

end Router

end FleetConsole
