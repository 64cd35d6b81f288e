import FleetConsole.Proofs.RateWindow
import FleetConsole.Proofs.Router.Life

namespace FleetConsole.Router

/-- Bytes of a command's output that an operation let through, by its answer. -/
def acceptedBy (id : CommandId) : Answered → Nat
  | (.ingest message,.ingested outcome) =>
    if message.command=id then outcome.acceptedBytes else 0
  | _ => 0

/-- A tick of a command's life, the newest one being number 0. -/
def tick (id : CommandId) (past : List Answered) (k : Nat) : List Answered :=
  ((sinceAdd id past).splitOnP (fun e => e.1.isUpkeep))[k]?.getD []

def tickTotal (id : CommandId) (past : List Answered) (k : Nat) : Nat :=
  ((tick id past k).map (acceptedBy id)).sum

/-- A moment of a run since which a command stayed in and fewer than `k` ticks began: one since
the opening of its `k`-th newest slice. -/
def SinceOpening (id : CommandId) (k : Nat) (r : Router) (ops before : List Op) : Prop :=
  ∃ recent,ops=before++recent ∧ recent.countP Op.isUpkeep<k ∧
    ∀ e∈(r.run before).2.past recent,adds id e=false

/-- A moment since the opening of the oldest slice that counts. -/
def InWindow (id : CommandId) (r : Router) (ops before : List Op) : Prop :=
  SinceOpening id RateWindow.sliceCount r ops before

theorem tickTotal_of_adds {id : CommandId} {e : Answered} (h : adds id e=true)
    (past : List Answered) (k : Nat) : tickTotal id (e :: past) k=0 := by
  rw [tickTotal,tick,sinceAdd_of_adds h,List.splitOnP_nil]
  cases k <;> rfl

theorem tick_upkeep {id : CommandId} {e : Answered} (ha : adds id e=false)
    (hu : e.1.isUpkeep=true) (past : List Answered) (k : Nat) :
    tick id (e :: past) k=match k with | 0 => [] | k+1 => tick id past k := by
  rw [tick,sinceAdd_of_not_adds ha,List.splitOnP_cons_eq_if_modifyHead,if_pos hu]
  cases k <;> rfl

theorem tick_cons {id : CommandId} {e : Answered} (ha : adds id e=false)
    (hu : e.1.isUpkeep=false) (past : List Answered) (k : Nat) :
    tick id (e :: past) k=match k with | 0 => e :: tick id past 0 | k+1 => tick id past (k+1) := by
  have hne := List.splitOnP_ne_nil (fun e : Answered => e.1.isUpkeep) (sinceAdd id past)
  rw [tick,sinceAdd_of_not_adds ha,List.splitOnP_cons_eq_if_modifyHead,
    if_neg (by rw [hu]; exact Bool.false_ne_true)]
  unfold tick
  cases hs : (sinceAdd id past).splitOnP (fun e => e.1.isUpkeep) with
  | nil => exact absurd hs hne
  | cons first later => cases k <;> rfl

/-- The totals of the ticks that a window covers. -/
def totals (id : CommandId) (past : List Answered) : List Nat :=
  (List.range RateWindow.sliceCount).map (tickTotal id past)

theorem length_totals (id : CommandId) (past : List Answered) :
    (totals id past).length=RateWindow.sliceCount := by
  rw [totals,List.length_map,List.length_range]

theorem totals_of_adds {id : CommandId} {e : Answered} (h : adds id e=true)
    (past : List Answered) : totals id (e :: past)=List.replicate RateWindow.sliceCount 0 := by
  have zero : tickTotal id (e :: past)=fun _ => 0 := funext (tickTotal_of_adds h past)
  rw [totals,zero]
  rfl

theorem totals_upkeep {id : CommandId} {e : Answered} (ha : adds id e=false)
    (hu : e.1.isUpkeep=true) (past : List Answered) :
    totals id (e :: past)=0 :: (totals id past).dropLast := by
  have first : tickTotal id (e :: past) 0=0 := by rw [tickTotal,tick_upkeep ha hu]; rfl
  have later (k : Nat) : tickTotal id (e :: past) (k+1)=tickTotal id past k := by
    rw [tickTotal,tick_upkeep ha hu]
    rfl
  simp [totals,RateWindow.sliceCount,List.range_succ,first,later]

theorem totals_cons {id : CommandId} {e : Answered} (ha : adds id e=false)
    (hu : e.1.isUpkeep=false) (past : List Answered) (quota : UInt64) :
    totals id (e :: past)=((⟨quota,totals id past⟩ : RateWindow).record (acceptedBy id e)).slices := by
  have first : tickTotal id (e :: past) 0=tickTotal id past 0+acceptedBy id e := by
    rw [tickTotal,tick_cons ha hu,List.map_cons,List.sum_cons,Nat.add_comm]
    rfl
  have later (k : Nat) : tickTotal id (e :: past) (k+1)=tickTotal id past (k+1) := by
    rw [tickTotal,tick_cons ha hu]
    rfl
  simp [totals,RateWindow.sliceCount,List.range_succ,RateWindow.record,first,later]

theorem windowQuota_onConfig (op : Op) (config : RouterConfig) :
    (op.onConfig config).windowQuota=op.newQuota.getD config.windowQuota := by
  cases op with
  | setMaxLines maxLines =>
    rw [Op.onConfig]
    split <;> rfl
  | _ => rfl

theorem acceptedBy_of_not_concerns {id : CommandId} {e : Answered} (h : e.1.concerns id=false) :
    acceptedBy id e=0 := by
  obtain ⟨op,reply⟩ := e
  cases op with
  | ingest message =>
    cases reply with
    | ingested outcome => exact if_neg (of_decide_eq_false h)
    | _ => rfl
  | _ => rfl

/-- No operation lets more through than the window has room for. -/
theorem acceptedBy_step_le (r : Router) (op : Op) (id : CommandId) :
    acceptedBy id (op,(r.step op).1) ≤ (r.channels.get? id).elim 0 (fun c => c.window.remaining) := by
  cases op with
  | ingest message =>
    by_cases hid : message.command=id
    · subst hid
      cases hl : r.channels.get? message.command with
      | none =>
        rw [step_ingest_none hl]
        exact Nat.le_of_eq (if_pos rfl)
      | some c =>
        have answer : (r.step (.ingest message)).1=.ingested (c.ingestOutcome message.text.toList) := by
          simp only [step,ingest_some hl]
        rw [answer,acceptedBy,if_pos rfl,Channel.acceptedBytes_ingestOutcome]
        exact c.utf8Length_affordable_le _
    · have other : acceptedBy id (.ingest message,(r.step (.ingest message)).1)=0 :=
        acceptedBy_of_not_concerns (decide_eq_false hid)
      rw [other]
      exact Nat.zero_le _
  | _ => exact Nat.zero_le _

theorem window_of_meets {id : CommandId} {e : Answered} {c c' : Channel} (h : Meets id e c c') :
    c'.window=if e.1.isUpkeep then c.window.rotate
      else (c.window.record (acceptedBy id e)).setQuota (e.1.newQuota.getD c.window.quota) := by
  have same (accepted : Nat) (ha : accepted=0) (w : RateWindow) :
      w=(w.record accepted).setQuota w.quota := by
    rw [ha,RateWindow.record_zero]
    rfl
  cases h with
  | message text c =>
    have hq := c.window.quota_record (Text.utf8Length (c.affordable text.toList))
    rw [Channel.window_ingest,acceptedBy,if_pos rfl,Channel.acceptedBytes_ingestOutcome]
    rw [← hq]
    rfl
  | upkeep stamp reports c own => exact c.window_upkeep stamp
  | quota op quota c hq =>
    have hu : op.isUpkeep=false := by cases op <;> first | rfl | cases hq
    have ha : acceptedBy id (op,.done)=0 := by cases op <;> rfl
    simp only [hu,Bool.false_eq_true,if_false,hq,ha,RateWindow.record_zero]
    rfl
  | elsewhere e c he =>
    have hu : e.1.isUpkeep=false := by cases hop : e.1 <;> first | rfl | (rw [hop] at he; cases he)
    have hq : e.1.newQuota=none := by cases hop : e.1 <;> first | rfl | (rw [hop] at he; cases he)
    rw [hu,hq,if_neg Bool.false_ne_true,acceptedBy_of_not_concerns he]
    exact same 0 rfl c.window
  | _ => exact same 0 rfl c.window

variable {config : RouterConfig} {ops : List Op} {id : CommandId} {c : Channel}

theorem quota_of_live (live : ((new config).run ops).2.channels.get? id=some c) :
    c.window.quota=((new config).run ops).2.config.windowQuota := by
  refine live_induction (motive := fun ops c =>
    c.window.quota=((new config).run ops).2.config.windowQuota) ?_ ?_ live
  · intro ops op exec hadd
    have hq : op.newQuota=none := by cases op <;> first | rfl | cases hadd
    rw [run_concat,config_step,windowQuota_onConfig,hq]
    rfl
  · intro ops op c c' hl ih hmeets
    rw [run_concat,config_step,windowQuota_onConfig,← ih,window_of_meets hmeets]
    split
    next hu =>
      have hq : op.newQuota=none := by cases op <;> first | rfl | cases hu
      rw [hq]
      rfl
    · rfl

/-- The slices of a live command's window are the totals of its latest ticks. -/
theorem slices_of_live (live : ((new config).run ops).2.channels.get? id=some c) :
    c.window.slices=totals id ((new config).past ops) := by
  refine live_induction (motive := fun ops c =>
    c.window.slices=totals id ((new config).past ops)) ?_ ?_ live
  · intro ops op exec hadd
    rw [past_concat,totals_of_adds hadd]
    rfl
  · intro ops op c c' hl ih hmeets
    have ha := adds_of_meets hmeets
    rw [past_concat,window_of_meets hmeets]
    split
    next hu => rw [totals_upkeep ha hu,← ih]; rfl
    next hu =>
      rw [totals_cons ha (Bool.eq_false_iff.mpr hu) _ c.window.quota,← ih]
      rfl

theorem length_slices_of_live (live : ((new config).run ops).2.channels.get? id=some c) :
    c.window.slices.length=RateWindow.sliceCount := by
  rw [slices_of_live live,length_totals]

theorem sinceOpening_now (r : Router) (ops : List Op) (k : Nat) : SinceOpening id (k+1) r ops ops := by
  refine ⟨[],(List.append_nil ops).symm,Nat.succ_pos k,?_⟩
  intro e he
  cases he

theorem sinceOpening_step {r : Router} {k : Nat} {before : List Op} {op : Op}
    (h : SinceOpening id k r ops before) (ha : adds id (op,((r.run ops).2.step op).1)=false) :
    SinceOpening id (k+(if op.isUpkeep then 1 else 0)) r (ops++[op]) before := by
  obtain ⟨recent,rfl,hcount,hadds⟩ := h
  refine ⟨recent++[op],List.append_assoc before recent [op],?_,?_⟩
  · rw [List.countP_append,List.countP_singleton]
    omega
  · intro e he
    have hrun : ((r.run before).2.run recent).2=(r.run (before++recent)).2 := by rw [run_append]
    rw [past_concat,hrun] at he
    cases he with
    | head => exact ha
    | tail _ he => exact hadds e he

/-- A sum of bytes is covered by a quota that was in force since the opening of a slice. -/
def Covered (id : CommandId) (k total : Nat) (r : Router) (ops : List Op) : Prop :=
  ∃ before,SinceOpening id k r ops before ∧
    total ≤ (r.run before).2.config.windowQuota.toNat

theorem covered_step {r : Router} {k total : Nat} {op : Op} (h : Covered id k total r ops)
    (ha : adds id (op,((r.run ops).2.step op).1)=false) :
    Covered id (k+(if op.isUpkeep then 1 else 0)) total r (ops++[op]) := by
  obtain ⟨before,hsince,hle⟩ := h
  exact ⟨before,sinceOpening_step hsince ha,hle⟩

/-- A rotation makes the newest slices those before it and an empty one. -/
theorem covered_rotation {r : Router} {op : Op} (hu : op.isUpkeep=true)
    (ha : adds id (op,((r.run ops).2.step op).1)=false)
    (hlen : c.window.slices.length=RateWindow.sliceCount)
    (ih : ∀ k<RateWindow.sliceCount,Covered id (k+1) (c.window.newest (k+1)) r ops)
    (k : Nat) (hk : k<RateWindow.sliceCount) :
    Covered id (k+1) (c.window.rotate.newest (k+1)) r (ops++[op]) := by
  have fits : k<c.window.slices.length := by omega
  rw [RateWindow.newest_rotate fits]
  cases k with
  | zero => exact ⟨ops++[op],sinceOpening_now r (ops++[op]) 0,Nat.zero_le _⟩
  | succ j =>
    have before := ih j (by omega)
    have later := covered_step before ha
    rw [hu,if_pos rfl] at later
    exact later

/-- What is let through at all is measured against the quota of the moment. -/
theorem covered_record {r : Router} {op : Op} (hu : op.isUpkeep=false)
    (ha : adds id (op,((r.run ops).2.step op).1)=false)
    (hq : c.window.quota=(r.run ops).2.config.windowQuota) {accepted : Nat}
    (room : accepted ≤ c.window.remaining) {k : Nat}
    (ih : Covered id (k+1) (c.window.newest (k+1)) r ops) :
    Covered id (k+1) ((c.window.record accepted).newest (k+1)) r (ops++[op]) := by
  by_cases hz : accepted=0
  · have later := covered_step ih ha
    rw [hu] at later
    rw [hz,RateWindow.record_zero]
    exact later
  · have now := sinceOpening_step (sinceOpening_now r ops k) ha
    rw [hu] at now
    have recorded := c.window.newest_record accepted (k+1)
    have most := c.window.newest_le_used (k+1)
    have fits := RateWindow.used_add_le room hz
    rw [hq] at fits
    exact ⟨ops,now,by omega⟩

/-- The newest slices never add up to more than a quota in force since the first of them was
opened. -/
theorem newest_covered_of_live (live : ((new config).run ops).2.channels.get? id=some c)
    (k : Nat) (hk : k<RateWindow.sliceCount) :
    Covered id (k+1) (c.window.newest (k+1)) (new config) ops := by
  refine live_induction (motive := fun ops c => ∀ k<RateWindow.sliceCount,
    Covered id (k+1) (c.window.newest (k+1)) (new config) ops) ?_ ?_ live k hk
  · intro ops op exec hadd k hk
    let w := RateWindow.new ((new config).run ops).2.config.windowQuota
    have empty : w.used=0 := rfl
    have most := w.newest_le_used (k+1)
    have zero : w.newest (k+1)=0 := by omega
    refine ⟨ops++[op],sinceOpening_now (new config) (ops++[op]) k,?_⟩
    change w.newest (k+1) ≤ _
    rw [zero]
    exact Nat.zero_le _
  · intro ops op c c' hl ih hmeets k hk
    have ha := adds_of_meets hmeets
    have hw := window_of_meets hmeets
    cases hu : op.isUpkeep with
    | true =>
      rw [if_pos hu] at hw
      rw [hw]
      exact covered_rotation hu ha (length_slices_of_live hl) ih k hk
    | false =>
      have room := acceptedBy_step_le ((new config).run ops).2 op id
      rw [hl,Option.elim_some] at room
      rw [if_neg (by rw [hu]; exact Bool.false_ne_true)] at hw
      rw [hw]
      exact covered_record hu ha (quota_of_live hl) room (ih k hk)

/-- An operation that lets nothing through leaves an overdrawn window overdrawn. -/
theorem overdrawn_of_meets {e : Answered} {c c' : Channel} (h : Meets id e c c')
    {quota rotations : Nat}
    (overdrawn : c.window.Overdrawn quota (rotations+(if e.1.isUpkeep then 1 else 0)))
    (nothing : acceptedBy id e=0) (lowered : ∀ q∈e.1.newQuota,q.toNat ≤ quota) :
    c'.window.Overdrawn quota rotations := by
  rw [window_of_meets h]
  split
  next hu =>
    rw [if_pos hu] at overdrawn
    exact RateWindow.overdrawn_rotate overdrawn
  next hu =>
    rw [if_neg hu] at overdrawn
    rw [nothing,RateWindow.record_zero]
    apply RateWindow.overdrawn_setQuota overdrawn
    cases hq : e.1.newQuota with
    | none => exact overdrawn.limit
    | some q => exact lowered q hq

/-- While the slices that are still to count use the quota up, nothing is let through. -/
theorem nothing_accepted {r : Router} (hn : r.Named) {later : List Op} {quota : Nat}
    (overdrawn : ∀ c,r.channels.get? id=some c →
      c.window.Overdrawn quota (later.countP Op.isUpkeep))
    (stays : ∀ e∈r.past later,adds id e=false)
    (lowered : ∀ op∈later,∀ q∈op.newQuota,q.toNat ≤ quota) :
    ((r.past later).map (acceptedBy id)).sum=0 := by
  induction later generalizing r with
  | nil => rfl
  | cons op ops ih =>
    rw [past_cons] at stays ⊢
    have nothing : acceptedBy id (op,(r.step op).1)=0 := by
      have room := acceptedBy_step_le r op id
      cases hl : r.channels.get? id with
      | none =>
        rw [hl] at room
        exact Nat.le_zero.mp room
      | some c =>
        rw [hl,Option.elim_some,RateWindow.remaining_of_overdrawn (overdrawn c hl)] at room
        exact Nat.le_zero.mp room
    have rest : (((r.step op).2.past ops).map (acceptedBy id)).sum=0 := by
      apply ih (named_step hn op)
      · intro c' hc'
        have ha : adds id (op,(r.step op).1)=false :=
          stays _ (List.mem_append_right _ List.mem_cons_self)
        rcases live_step hn hc' with ⟨exec,hadd,_⟩ | ⟨c,hl,hmeets⟩
        · rw [ha] at hadd
          cases hadd
        · have before := overdrawn c hl
          rw [List.countP_cons] at before
          exact overdrawn_of_meets hmeets before nothing (lowered op List.mem_cons_self)
      · intro e he
        exact stays e (List.mem_append_left _ he)
      · intro op' hop
        exact lowered op' (List.mem_cons_of_mem _ hop)
    rw [List.map_append,List.sum_append_nat,rest]
    simp [nothing]

theorem used_le_quota (live : ((new config).run ops).2.channels.get? id=some c) :
    ∃ before,InWindow id (new config) ops before ∧
      c.window.used ≤ ((new config).run before).2.config.windowQuota.toNat := by
  have covered := newest_covered_of_live live 5 (by decide)
  have whole := c.window.newest_length
  rw [length_slices_of_live live] at whole
  rw [← whole]
  exact covered

/-- What the newest slice of a window holds after a message. -/
theorem newest_slice_add_lt {r : Router} {message : OutputMessage}
    (live : r.channels.get? message.command=some c) (hu : c.window.used<UInt64.size) :
    c.window.slices.headD 0+(r.ingest message).1.acceptedBytes<UInt64.size := by
  have answer : (r.ingest message).1=c.ingestOutcome message.text.toList := by
    rw [ingest_some live]
  have fits := c.utf8Length_affordable_le message.text.toList
  have newest : c.window.slices.headD 0 ≤ c.window.used := by
    rw [RateWindow.used_eq_sum]
    cases c.window.slices <;> simp
  have word := c.window.quota.toNat_lt_size
  rw [answer,Channel.acceptedBytes_ingestOutcome]
  have room : c.window.remaining=c.window.quota.toNat-c.window.used := rfl
  omega

/-- The slices of a live command are what was let through tick by tick, and they add up to no more
than a quota in force since the oldest was opened. All of it fits in 64 bits. -/
theorem window_of_run (config : RouterConfig) (ops : List Op) (id : CommandId) (c : Channel)
    (live : ((new config).run ops).2.channels.get? id=some c) :
    c.window.slices=(List.range RateWindow.sliceCount).map (tickTotal id ((new config).past ops)) ∧
    c.window.quota=((new config).run ops).2.config.windowQuota ∧
    (∃ before,InWindow id (new config) ops before ∧
      c.window.used ≤ ((new config).run before).2.config.windowQuota.toNat) ∧
    ((∀ before,InWindow id (new config) ops before →
        ((new config).run before).2.config.windowQuota=c.window.quota) →
      c.window.used ≤ c.window.quota.toNat) ∧
    (∀ later,(∀ e∈((new config).run ops).2.past later,adds id e=false) →
      (∀ op∈later,∀ quota∈op.newQuota,quota.toNat ≤ c.window.quota.toNat) →
      c.window.quota.toNat ≤
        (c.window.slices.take (RateWindow.sliceCount-later.countP Op.isUpkeep)).sum →
      ((((new config).run ops).2.past later).map (acceptedBy id)).sum=0) ∧
    c.window.used<UInt64.size ∧
    ∀ text,c.window.slices.headD 0+
      (((new config).run ops).2.ingest ⟨id,text⟩).1.acceptedBytes<UInt64.size := by
  obtain ⟨before,hin,hle⟩ := used_le_quota live
  have word : c.window.used<UInt64.size :=
    Nat.lt_of_le_of_lt hle (((new config).run before).2.config.windowQuota.toNat_lt_size)
  refine ⟨slices_of_live live,quota_of_live live,⟨before,hin,hle⟩,?_,?_,word,?_⟩
  · intro unchanged
    rw [← unchanged before hin]
    exact hle
  · intro later stays lowered overdrawn
    apply nothing_accepted (named_run config ops) ?_ stays lowered
    intro c' hc'
    obtain rfl : c=c' := Option.some.inj (live.symm.trans hc')
    exact ⟨length_slices_of_live live,Nat.le_refl _,overdrawn⟩
  · intro text
    have found : ((new config).run ops).2.channels.get? (⟨id,text⟩ : OutputMessage).command=
        some c := live
    exact newest_slice_add_lt found word

/-- A quota of four bytes, used up and then halved. -/
def halving : List Op :=
  [.add .masked camera,.ingest ⟨camera.id,"abcdef"⟩,.upkeep .masked,.setWindowQuota 2]

theorem window_of_halving :
    ∃ c,((new (.ofQuota 4 3)).run halving).2.channels.get? camera.id=some c ∧
      c.window=⟨2,[0,4,0,0,0,0]⟩ ∧ c.window.used<UInt64.size ∧
      ((((new (.ofQuota 4 3)).run halving).2.past
        [.ingest ⟨camera.id,"gh"⟩,.upkeep .masked,.ingest ⟨camera.id,"i"⟩]).map
          (acceptedBy camera.id)).sum=0 := by
  have found : (((new (.ofQuota 4 3)).run halving).2.channels.get? camera.id).map Channel.window=
      some ⟨2,[0,4,0,0,0,0]⟩ := by decide +kernel
  obtain ⟨c,live,hw⟩ := Option.map_eq_some_iff.mp found
  obtain ⟨_,_,_,_,overdrawn,word,_⟩ := window_of_run (.ofQuota 4 3) halving camera.id c live
  rw [hw] at overdrawn
  refine ⟨c,live,hw,word,overdrawn _ ?_ ?_ (by decide)⟩
  · decide +kernel
  · intro op hop quota hq
    simp only [List.mem_cons,List.not_mem_nil,or_false] at hop
    rcases hop with rfl | rfl | rfl <;> cases hq

end FleetConsole.Router
