import FleetConsole.Proofs.Router.LiveCount
import FleetConsole.Proofs.Router.SlidingWindow

namespace FleetConsole

namespace Channel

theorem affordable_of_room {c : Channel} {text : List Char}
    (room : Text.utf8Length text ≤ c.window.remaining) :
    c.affordable text=text ∧ c.excess text=[] := by
  rw [affordable,excess,Text.fitting_of_le room]
  exact ⟨List.take_length,List.drop_length⟩

theorem ingestOutcome_of_room {c : Channel} {text : List Char}
    (room : Text.utf8Length text ≤ c.window.remaining) :
    c.ingestOutcome text=.accepted (Text.utf8Length text) := by
  obtain ⟨kept,rest⟩ := affordable_of_room room
  rw [ingestOutcome,kept,rest]
  rfl

end Channel

namespace Router

/-- Bytes that an operation sends to a command. -/
def Op.sentTo (id : CommandId) : Op → Nat
  | .ingest message => if message.command=id then message.text.utf8ByteSize else 0
  | _ => 0

/-- A run without its upkeeps. -/
def unticked (ops : List Op) : List Op := ops.filter (fun op => !op.isUpkeep)

/-- A stretch of a run throughout which a command is live. -/
def LiveDuring (config : RouterConfig) (id : CommandId) (before during : List Op) : Prop :=
  ∀ p,p <+: during → ((new config).run (before++p)).2.channels.contains id=true

/-- All that a command is sent while it is live, from its addition to its removal, fits every quota
that is in force in that time. -/
def Fits (config : RouterConfig) (ops : List Op) : Prop :=
  ∀ id before during,before++during <+: ops → LiveDuring config id before during →
    ∀ p,p <+: during →
      (during.map (Op.sentTo id)).sum ≤ ((new config).run (before++p)).2.config.windowQuota.toNat

theorem exists_of_isUpkeep {op : Op} (h : op.isUpkeep=true) : ∃ stamp,op=.upkeep stamp := by
  cases op with
  | upkeep stamp => exact ⟨stamp,rfl⟩
  | _ => cases h

theorem unticked_concat_upkeep (ops : List Op) (stamp : Stamp) :
    unticked (ops++[.upkeep stamp])=unticked ops := by
  rw [unticked,List.filter_append]
  exact List.append_nil _

theorem unticked_concat {op : Op} (h : op.isUpkeep=false) (ops : List Op) :
    unticked (ops++[op])=unticked ops++[op] := by
  rw [unticked,List.filter_append,List.filter_cons_of_pos (by rw [h]; rfl)]
  rfl

theorem isSome_onChannel (op : Op) (id : CommandId) (config config' : RouterConfig)
    {c c' : Option Channel} (h : c.isSome=c'.isSome) :
    (op.onChannel id config c).isSome=(op.onChannel id config' c').isSome := by
  cases op with
  | add stamp command => rw [Op.onChannel,Op.onChannel]; split <;> first | rfl | exact h
  | remove stamp command => rw [Op.onChannel,Op.onChannel]; split <;> first | rfl | exact h
  | ingest message => rw [Op.onChannel,Op.onChannel]; split <;> simp [h]
  | setMaxLines maxLines => rw [Op.onChannel,Op.onChannel]; split <;> simp [h]
  | clearCommand name => rw [Op.onChannel,Op.onChannel]; split <;> simp [h]
  | _ => simp [Op.onChannel,h]

theorem config_unticked (config : RouterConfig) (ops : List Op) :
    ((new config).run ops).2.config=((new config).run (unticked ops)).2.config := by
  induction ops using List.reverseRecOn with
  | nil => rfl
  | append_singleton ops op ih =>
    rw [run_concat,config_step,ih]
    cases hu : op.isUpkeep with
    | true =>
      obtain ⟨stamp,rfl⟩ := exists_of_isUpkeep hu
      rw [unticked_concat_upkeep]
      rfl
    | false => rw [unticked_concat hu,run_concat,config_step]

theorem contains_unticked (config : RouterConfig) (ops : List Op) (id : CommandId) :
    ((new config).run ops).2.channels.contains id=
      ((new config).run (unticked ops)).2.channels.contains id := by
  induction ops using List.reverseRecOn with
  | nil => rfl
  | append_singleton ops op ih =>
    rw [contains_eq_isSome,contains_eq_isSome] at ih
    rw [run_concat,contains_step]
    cases hu : op.isUpkeep with
    | true =>
      obtain ⟨stamp,rfl⟩ := exists_of_isUpkeep hu
      rw [unticked_concat_upkeep,contains_eq_isSome,← ih,Op.onChannel,Option.isSome_map]
    | false =>
      rw [unticked_concat hu,run_concat,contains_step]
      exact isSome_onChannel op id _ _ ih

theorem acceptedBy_le_sentTo (r : Router) (op : Op) (id : CommandId) :
    acceptedBy id (op,(r.step op).1) ≤ op.sentTo id := by
  cases op with
  | ingest message =>
    by_cases hid : message.command=id
    · subst hid
      rw [Op.sentTo,if_pos rfl]
      cases hl : r.channels.get? message.command with
      | none =>
        rw [step_ingest_none hl,acceptedBy,if_pos rfl]
        exact Nat.zero_le _
      | some c =>
        have whole := c.utf8Length_affordable_add_excess message.text.toList
        rw [Text.utf8Length_toList] at whole
        rw [answer_ingest_live hl,acceptedBy,if_pos rfl,Channel.acceptedBytes_ingestOutcome]
        omega
    · have other : acceptedBy id (.ingest message,(r.step (.ingest message)).1)=0 :=
        acceptedBy_of_not_concerns (decide_eq_false hid)
      rw [other]
      exact Nat.zero_le _
  | _ => exact Nat.zero_le _

variable {config : RouterConfig} {ops : List Op} {id : CommandId} {c : Channel}

theorem liveDuring_concat {before during : List Op} {op : Op}
    (h : LiveDuring config id before during)
    (live : ((new config).run (before++(during++[op]))).2.channels.contains id=true) :
    LiveDuring config id before (during++[op]) := by
  intro p hp
  rcases List.prefix_concat_iff.mp hp with rfl | hp
  · exact live
  · exact h p hp

/-- A window never holds more than was sent since its command came in. -/
theorem used_le_sent (live : ((new config).run ops).2.channels.get? id=some c) :
    ∃ before during,before++during=unticked ops ∧ LiveDuring config id before during ∧
      c.window.used ≤ (during.map (Op.sentTo id)).sum := by
  induction ops using List.reverseRecOn generalizing c with
  | nil => cases live
  | append_singleton ops op ih =>
    have here := contains_unticked config (ops++[op]) id
    rw [contains_eq_isSome,live,Option.isSome_some] at here
    rw [run_concat] at live
    rcases live_step (named_run config ops) live with ⟨exec,added,rfl⟩ | ⟨c₀,live₀,meets⟩
    · refine ⟨unticked (ops++[op]),[],List.append_nil _,?_,Nat.le_refl 0⟩
      intro p hp
      rw [List.prefix_nil.mp hp,List.append_nil,← here]
    · -- the stretch grows with every operation but an upkeep, and an upkeep adds nothing
      obtain ⟨before,during,split,stretch,le⟩ := ih live₀
      have window := window_of_meets meets
      cases hu : op.isUpkeep with
      | true =>
        obtain ⟨stamp,rfl⟩ := exists_of_isUpkeep hu
        rw [unticked_concat_upkeep]
        rw [if_pos hu] at window
        refine ⟨before,during,split,stretch,?_⟩
        rw [window]
        exact Nat.le_trans c₀.window.used_rotate_le le
      | false =>
        rw [unticked_concat hu] at here ⊢
        have split' : before++(during++[op])=unticked ops++[op] := by
          rw [← List.append_assoc,split]
        refine ⟨before,during++[op],split',liveDuring_concat stretch (by rw [split',← here]),?_⟩
        have hu' : (op,(((new config).run ops).2.step op).1).1.isUpkeep=false := hu
        rw [hu',if_neg Bool.false_ne_true] at window
        have recorded := c₀.window.used_record_le
          (acceptedBy id (op,(((new config).run ops).2.step op).1))
        have sent := acceptedBy_le_sentTo ((new config).run ops).2 op id
        rw [window,List.map_append,List.sum_append]
        change (c₀.window.record _).used ≤ _
        simp only [List.map_cons,List.map_nil,List.sum_cons,List.sum_nil]
        omega

/-- There is room for every message to a live command. -/
theorem room_of_fits {message : OutputMessage}
    (fits : Fits config (unticked (ops++[.ingest message])))
    (live : ((new config).run ops).2.channels.get? message.command=some c) :
    Text.utf8Length message.text.toList ≤ c.window.remaining := by
  obtain ⟨before,during,split,stretch,le⟩ := used_le_sent live
  have split' : before++(during++[.ingest message])=unticked (ops++[.ingest message]) := by
    rw [unticked_concat rfl,← List.append_assoc,split]
  have after : ((new config).run (before++(during++[.ingest message]))).2.channels.contains
      message.command=true := by
    rw [split',← contains_unticked,run_concat,contains_step,live,Op.onChannel,if_pos rfl]
    rfl
  -- the message itself counts as sent in the stretch that ends with it
  have quota := fits message.command before (during++[.ingest message])
    (split' ▸ List.prefix_refl _) (liveDuring_concat stretch after) during (List.prefix_append _ _)
  rw [split,← config_unticked,← quota_of_live live,List.map_append,List.sum_append] at quota
  have sent : Op.sentTo message.command (.ingest message)=message.text.utf8ByteSize := if_pos rfl
  simp only [List.map_cons,List.map_nil,List.sum_cons,List.sum_nil,sent] at quota
  have room : c.window.remaining=c.window.quota.toNat-c.window.used := rfl
  rw [Text.utf8Length_toList]
  omega

/-- Where an operation is a message to a live command, there is room for it. -/
def HasRoom (r : Router) (op : Op) : Prop :=
  ∀ message c,op=.ingest message → r.channels.get? message.command=some c →
    Text.utf8Length message.text.toList ≤ c.window.remaining

theorem fits_before {ops later : List Op} (fits : Fits config (unticked (ops++later))) :
    Fits config (unticked ops) := by
  rw [unticked,List.filter_append] at fits
  exact fun id before during hp => fits id before during (hp.trans (List.prefix_append _ _))

/-- Nothing is ever dropped, so that there is nothing to report. -/
theorem nothing_unreported (fits : Fits config (unticked ops))
    (live : ((new config).run ops).2.channels.get? id=some c) : c.unreported=0 := by
  induction ops using List.reverseRecOn generalizing c with
  | nil => cases live
  | append_singleton ops op ih =>
    rw [run_concat] at live
    rcases live_step (named_run config ops) live with ⟨exec,_,rfl⟩ | ⟨c₀,live₀,meets⟩
    · rfl
    · have before := ih (fits_before fits) live₀
      generalize answer : (((new config).run ops).2.step op).1=reply at meets
      cases meets with
      | message text =>
        obtain ⟨_,rest⟩ := Channel.affordable_of_room (room_of_fits fits live₀)
        rw [Channel.unreported_ingest,before,rest]
        rfl
      | upkeep stamp reports => exact c₀.unreported_upkeep stamp
      | _ => exact before

theorem unticked_unticked (ops : List Op) : unticked (unticked ops)=unticked ops := by
  simp [unticked,List.filter_filter]

/-- There is room for every message, with the upkeeps and without them. -/
theorem hasRoom_of_fits {op : Op} (fits : Fits config (unticked (ops++[op])))
    (hu : op.isUpkeep=false) :
    ((new config).run ops).2.HasRoom op ∧ ((new config).run (unticked ops)).2.HasRoom op := by
  constructor
  · rintro message c rfl live
    exact room_of_fits fits live
  · rintro message c rfl live
    refine room_of_fits ?_ live
    rwa [unticked_concat hu,unticked_unticked,← unticked_concat hu]

def Op.bytes : Op → Nat
  | .ingest message => message.text.utf8ByteSize
  | _ => 0

theorem sentTo_le_bytes (id : CommandId) (op : Op) : op.sentTo id ≤ op.bytes := by
  cases op with
  | ingest message =>
    rw [Op.sentTo]
    split
    · exact Nat.le_refl _
    · exact Nat.zero_le _
  | _ => exact Nat.le_refl _

theorem sum_sentTo_le (id : CommandId) (ops : List Op) :
    (ops.map (Op.sentTo id)).sum ≤ (ops.map Op.bytes).sum := by
  induction ops with
  | nil => exact Nat.le_refl 0
  | cons op ops ih =>
    have first := sentTo_le_bytes id op
    simp only [List.map_cons,List.sum_cons]
    omega

theorem quota_of_fixed {ops : List Op} (fixed : ∀ op∈ops,op.newQuota=none) :
    ((new config).run ops).2.config.windowQuota=config.windowQuota := by
  induction ops using List.reverseRecOn with
  | nil => rfl
  | append_singleton ops op ih =>
    have last := fixed op (by simp)
    have before := ih (fun op hop => fixed op (List.mem_append_left _ hop))
    rw [run_concat,config_step,windowQuota_onConfig,last,before]
    rfl

/-- All output together may fit a quota that stays what it is. -/
theorem fits_of_total {ops : List Op} (fixed : ∀ op∈ops,op.newQuota=none)
    (total : (ops.map Op.bytes).sum ≤ config.windowQuota.toNat) : Fits config ops := by
  intro id before during hp _ p hq
  obtain ⟨later,rfl⟩ := hp
  obtain ⟨rest,rfl⟩ := hq
  have quota : ((new config).run (before++p)).2.config.windowQuota=config.windowQuota := by
    apply quota_of_fixed
    intro op hop
    apply fixed
    simp only [List.mem_append] at hop ⊢
    tauto
  have each := sum_sentTo_le id (p++rest)
  rw [List.map_append,List.map_append,List.sum_append,List.sum_append] at total
  rw [quota]
  omega

end Router

end FleetConsole
