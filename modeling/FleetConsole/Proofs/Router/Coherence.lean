import FleetConsole.Proofs.LineBuffer.Complete
import FleetConsole.Proofs.Router.Step

namespace FleetConsole

namespace LineBuffer

variable {σ : Type}

/-- A buffer that has a limit of lines and keeps to it. -/
structure Within (limit : Nat) (b : LineBuffer σ) : Prop where
  maxLines : b.maxLines=limit
  size : b.size ≤ limit

variable {limit : Nat} {b : LineBuffer σ}

theorem within_new (maxLines : Nat) : (new maxLines : LineBuffer σ).Within (max 1 maxLines) :=
  ⟨rfl,Nat.zero_le _⟩

theorem within_evict (h : b.maxLines=limit) : b.evict.2.Within limit where
  maxLines := h
  size := by
    rw [size_evict,h]
    exact Nat.min_le_left _ _

theorem within_append (h : b.Within limit) (runs : List (Run σ)) :
    (b.append runs).2.Within limit :=
  within_evict ((maxLines_writes b runs).trans h.maxLines)

theorem within_setMaxLines (b : LineBuffer σ) (maxLines : Nat) :
    (b.setMaxLines maxLines).2.Within (max 1 maxLines) :=
  within_evict (b := { b with maxLines := max 1 maxLines }) rfl

theorem within_endOpenLine (h : b.Within limit) : b.endOpenLine.2.Within limit := by
  obtain ⟨newestFirst,maxLines,nextSeq⟩ := b
  cases newestFirst <;> exact ⟨h.maxLines,h.size⟩

theorem within_clear (h : b.Within limit) : b.clear.Within limit := ⟨h.maxLines,Nat.zero_le _⟩

end LineBuffer

/-- The least number of lines that a buffer keeps is one, whatever is asked for. -/
def RouterConfig.lineLimit (config : RouterConfig) : Nat := max 1 config.maxLines

/-- A quota that comes from a limit is that limit's. -/
def RouterConfig.Consistent (config : RouterConfig) : Prop :=
  ∀ limit,config.rateLimit=some limit → config.windowQuota=limit.windowQuota

/-- The ways to make a configuration. -/
inductive RouterConfig.Made : RouterConfig → Prop where
  | ofLimit (limit : RateLimit) (maxLines : Nat) : Made (.ofLimit limit maxLines)
  | ofQuota (quota : UInt64) (maxLines : Nat) : Made (.ofQuota quota maxLines)
  | standard : Made .standard

theorem RouterConfig.consistent_ofLimit (limit : RateLimit) (maxLines : Nat) :
    (ofLimit limit maxLines).Consistent := by
  intro limit' h
  cases h
  rfl

theorem RouterConfig.consistent_of_made {config : RouterConfig} (h : config.Made) :
    config.Consistent := by
  cases h with
  | ofLimit limit maxLines => exact consistent_ofLimit limit maxLines
  | ofQuota quota maxLines => exact nofun
  | standard => exact consistent_ofLimit _ _

/-- A channel goes by a configuration. -/
structure Channel.Follows (config : RouterConfig) (c : Channel) : Prop where
  quota : c.window.quota=config.windowQuota
  lines : c.buffer.Within config.lineLimit

namespace Channel

variable {config : RouterConfig} {c : Channel}

theorem follows_new (config : RouterConfig) (id : CommandId) (exec : String) :
    (new id exec config.windowQuota config.maxLines).Follows config :=
  ⟨rfl,LineBuffer.within_new config.maxLines⟩

theorem follows_ingest (h : c.Follows config) (text : List Char) :
    (c.ingest text).Follows config where
  quota := by rw [window_ingest,RateWindow.quota_record,h.quota]
  lines := by
    rw [buffer_ingest]
    split
    · exact h.lines
    · exact LineBuffer.within_append h.lines _

theorem follows_upkeep (h : c.Follows config) (stamp : Stamp) :
    (c.upkeep stamp).Follows config where
  quota := by
    rw [window_upkeep]
    exact h.quota
  lines := by
    rw [buffer_upkeep]
    split
    · exact h.lines
    · exact LineBuffer.within_append h.lines _

end Channel

namespace GlobalLog

variable {σ : Type} {g : GlobalLog σ} {limit : Nat}

theorem within_appendNotice (h : g.buffer.Within limit) (runs : List (Run σ)) :
    (g.appendNotice runs).buffer.Within limit :=
  LineBuffer.within_append (LineBuffer.within_endOpenLine h) runs

theorem within_appendOutput (h : g.buffer.Within limit) (source : CommandId)
    (runs : List (Run σ)) : (g.appendOutput source runs).buffer.Within limit := by
  apply LineBuffer.within_append
  split
  · exact h
  · exact LineBuffer.within_endOpenLine h

end GlobalLog

namespace Router

/-- All that is copied from the configuration agrees with it. -/
structure Coherent (r : Router) : Prop where
  named : r.Named
  channels : ∀ id c,r.channels.get? id=some c → c.Follows r.config
  global : r.global.buffer.Within r.config.lineLimit
  config : r.config.Consistent

theorem coherent_new {config : RouterConfig} (h : config.Consistent) : (new config).Coherent where
  named := named_new config
  channels := nofun
  global := LineBuffer.within_new config.maxLines
  config := h

theorem consistent_onConfig {config : RouterConfig} (h : config.Consistent) (op : Op) :
    (op.onConfig config).Consistent := by
  cases op with
  | setRateLimit limit =>
    intro limit' hl
    cases hl
    rfl
  | setWindowQuota quota => exact nofun
  | setMaxLines maxLines =>
    rw [Op.onConfig]
    split <;> exact h
  | _ => exact h

/-- Whatever an operation makes of the configuration, it makes of the channels as well. -/
theorem follows_onChannel {config : RouterConfig} {old : Option Channel}
    (h : ∀ c,old=some c → c.Follows config) (op : Op) {id : CommandId} {c : Channel}
    (hc : op.onChannel id config old=some c) : c.Follows (op.onConfig config) := by
  -- An operation on the channel that is there.
  have changed {f : Channel → Channel} {config' : RouterConfig}
      (hf : ∀ d,d.Follows config → (f d).Follows config') (hm : old.map f=some c) :
      c.Follows config' := by
    obtain ⟨d,hd,rfl⟩ := Option.map_eq_some_iff.mp hm
    exact hf d (h d hd)
  cases op with
  | add stamp command =>
    rw [Op.onChannel] at hc
    split at hc
    · cases old with
      | none =>
        cases hc
        exact Channel.follows_new config id command.exec
      | some d => exact h c hc
    · exact h c hc
  | remove stamp command =>
    rw [Op.onChannel] at hc
    split at hc
    · cases hc
    · exact h c hc
  | ingest message =>
    rw [Op.onChannel] at hc
    split at hc
    · exact changed (fun d hd => Channel.follows_ingest hd message.text.toList) hc
    · exact h c hc
  | upkeep stamp => exact changed (fun d hd => Channel.follows_upkeep hd stamp) hc
  | setRateLimit limit =>
    exact changed (f := fun d => d.setQuota limit.windowQuota) (fun d hd => ⟨rfl,hd.lines⟩) hc
  | setWindowQuota quota =>
    exact changed (f := fun d => d.setQuota quota) (fun d hd => ⟨rfl,hd.lines⟩) hc
  | setMaxLines maxLines =>
    rw [Op.onChannel] at hc
    rw [Op.onConfig]
    split at hc
    next hz =>
      rw [if_pos hz]
      exact h c hc
    next hz =>
      rw [if_neg hz]
      exact changed (f := fun d => d.setMaxLines maxLines)
        (fun d hd => ⟨hd.quota,LineBuffer.within_setMaxLines d.buffer maxLines⟩) hc
  | clearCommand name =>
    rw [Op.onChannel] at hc
    split at hc
    · exact changed (f := Channel.clear)
        (fun d hd => ⟨hd.quota,LineBuffer.within_clear hd.lines⟩) hc
    · exact h c hc
  | changeStatus stamp name oldStatus newStatus => exact h c hc
  | clearGlobal => exact h c hc

theorem within_global_step {r : Router} (h : r.global.buffer.Within r.config.lineLimit) (op : Op) :
    (r.step op).2.global.buffer.Within (op.onConfig r.config).lineLimit := by
  cases op with
  | add stamp command =>
    cases hl : r.channels.get? command.id with
    | none =>
      rw [step_add_new hl]
      exact GlobalLog.within_appendNotice h _
    | some c =>
      rw [step_add_live hl]
      exact h
  | remove stamp command =>
    cases hl : r.channels.get? command.id with
    | none =>
      rw [step_remove_none hl]
      exact h
    | some c =>
      rw [step_remove_live hl]
      exact GlobalLog.within_appendNotice h _
  | changeStatus stamp id oldStatus newStatus =>
    rw [step_changeStatus]
    exact GlobalLog.within_appendNotice h _
  | ingest message =>
    cases hl : r.channels.get? message.command with
    | none =>
      rw [step_ingest_none hl]
      exact h
    | some c =>
      simp only [step,ingest_some hl]
      split
      · exact h
      · exact GlobalLog.within_appendOutput h _ _
  | upkeep stamp =>
    change (r.upkeep stamp).2.global.buffer.Within r.config.lineLimit
    rw [upkeep_global]
    refine List.foldlRecOn (motive := fun g : GlobalLog Style => g.buffer.Within r.config.lineLimit)
      _ _ h ?_
    intro g hg report _
    exact GlobalLog.within_appendNotice hg _
  | setMaxLines maxLines =>
    rw [Op.onConfig]
    by_cases hz : maxLines=0
    · subst hz
      exact h
    · rw [step_setMaxLines hz,if_neg hz]
      exact LineBuffer.within_setMaxLines r.global.buffer maxLines
  | clearCommand id => cases hl : r.channels.get? id <;> (simp only [step,clearCommand,hl]; exact h)
  | clearGlobal => exact LineBuffer.within_clear h
  | setRateLimit limit => exact h
  | setWindowQuota quota => exact h

theorem coherent_step {r : Router} (h : r.Coherent) (op : Op) : (r.step op).2.Coherent where
  named := named_step h.named op
  channels id c hc := by
    rw [config_step]
    rw [get?_step] at hc
    exact follows_onChannel (h.channels id) op hc
  global := by
    rw [config_step]
    exact within_global_step h.global op
  config := by
    rw [config_step]
    exact consistent_onConfig h.config op

theorem coherent_run {config : RouterConfig} (h : config.Consistent) (ops : List Op) :
    ((new config).run ops).2.Coherent :=
  run_induction (motive := fun _ r => r.Coherent) (coherent_new h)
    (fun _ _ op hr => coherent_step hr op) ops

/-- After any operations every channel has the quota of the configuration and every buffer its
limit of lines, and a limit in kilobytes is the one that the quota stands for. -/
theorem configuration_coherent (config : RouterConfig) (made : config.Made) (ops : List Op) :
    let r := ((new config).run ops).2
    (∀ id c,r.channels.get? id=some c →
      c.id=id ∧ c.window.quota=r.config.windowQuota ∧
      c.buffer.maxLines=max 1 r.config.maxLines ∧ c.buffer.size ≤ c.buffer.maxLines) ∧
    (r.global.buffer.maxLines=max 1 r.config.maxLines ∧
      r.global.buffer.size ≤ r.global.buffer.maxLines) ∧
    (∀ limit,r.config.rateLimit=some limit →
      r.config.windowQuota.toNat=2500*limit.kbPerSec.toNat) ∧
    ∀ limit : RateLimit,
      limit.kbPerSec.toNat*RateLimit.bytesPerKb.toNat<UInt64.size ∧
      limit.kbPerSec.toNat*RateLimit.bytesPerKb.toNat*RateLimit.windowMillis.toNat<UInt64.size := by
  intro r
  have coherent : r.Coherent := coherent_run (RouterConfig.consistent_of_made made) ops
  have kept {σ : Type} {b : LineBuffer σ} (h : b.Within r.config.lineLimit) :
      b.maxLines=max 1 r.config.maxLines ∧ b.size ≤ b.maxLines := by
    have size := h.size
    rw [← h.maxLines] at size
    exact ⟨h.maxLines,size⟩
  refine ⟨?_,kept coherent.global,?_,?_⟩
  · intro id c hc
    have follows := coherent.channels id c hc
    exact ⟨coherent.named id c hc,follows.quota,kept follows.lines⟩
  · intro limit hl
    rw [coherent.config limit hl,RateLimit.windowQuota_toNat]
  · intro limit
    have word := limit.kbPerSec.toNat_lt
    simp only [RateLimit.bytesPerKb,RateLimit.windowMillis,UInt64.reduceToNat,UInt64.size]
    omega

/-- Limits of every kind, with a channel opened before each of them and one after the last. -/
def adjusted : List Op :=
  [.add .masked camera,.setMaxLines 0,.setMaxLines 2,.setWindowQuota 7,.ingest ⟨camera.id,"a\nb\nc\n"⟩,
    .setRateLimit ⟨3⟩,.setMaxLines 1,.add .masked radar]

theorem configuration_of_adjusted :
    RouterConfig.Made (.ofQuota 4 0) ∧
    ∃ c,((new (.ofQuota 4 0)).run adjusted).2.channels.get? radar.id=some c ∧
      c.window.quota=((new (.ofQuota 4 0)).run adjusted).2.config.windowQuota ∧
      ((new (.ofQuota 4 0)).run adjusted).2.config=⟨some ⟨3⟩,7500,1⟩ := by
  have made : RouterConfig.Made (.ofQuota 4 0) := .ofQuota 4 0
  have live : (((new (.ofQuota 4 0)).run adjusted).2.channels.get? radar.id).isSome=true := by
    decide +kernel
  obtain ⟨c,hc⟩ := Option.isSome_iff_exists.mp live
  obtain ⟨channels,_⟩ := configuration_coherent (.ofQuota 4 0) made adjusted
  have config : ((new (.ofQuota 4 0)).run adjusted).2.config=⟨some ⟨3⟩,7500,1⟩ := by
    decide +kernel
  exact ⟨made,c,hc,(channels radar.id c hc).2.1,config⟩

end Router

end FleetConsole
