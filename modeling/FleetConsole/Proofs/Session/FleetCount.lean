import FleetConsole.Proofs.Console.Step
import FleetConsole.Proofs.Deputy.Monitor
import FleetConsole.Proofs.Fleet.Observed
import FleetConsole.Proofs.Router.LiveCount
import FleetConsole.Session.Basic

namespace FleetConsole

/-- Events that change the fleet's count but not the router's: an addition of a command that is
live, and a removal of an unknown command of a deputy that has live ones. -/
def Router.strays (r : Router) : Event → Bool
  | .lifecycle (.commandAdded command) => r.channels.contains command.id
  | .lifecycle (.commandRemoved command) =>
    !r.channels.contains command.id && decide (0<r.liveCount command.id.deputy)
  | _ => false

namespace Session

/-- What can happen to a session: an event comes in, someone asks the fleet who is live, or one
of the session's own inputs. -/
inductive Act where
  | event (event : Event)
  | look
  | input (input : Input)
  deriving DecidableEq, Repr

/-- The event that an act brings, if it brings one. -/
def Act.event? : Act → Option Event
  | .event e => some e
  | .input (.line text) => (Event.read (Text.trim text)).toOption
  | _ => none

def act (s : Session) (r : Reading) : Act → Session
  | .event e => (s.take r e).session
  | .look => { s with fleet := (s.fleet.liveDeputies r.steady).2 }
  | .input i => (s.step r i).session

def after (s : Session) (acts : List (Reading × Act)) : Session :=
  acts.foldl (fun s e => s.act e.1 e.2) s

theorem after_concat (s : Session) (acts : List (Reading × Act)) (r : Reading) (a : Act) :
    s.after (acts++[(r,a)])=(s.after acts).act r a := by
  simp [after]

/-- Fleet and router count the same commands for every deputy. -/
def Agrees (s : Session) : Prop :=
  ∀ deputy,s.fleet.count deputy=s.console.router.liveCount deputy

/-- Whether an act brings an event that only the fleet counts. -/
def strays (s : Session) (a : Act) : Bool := a.event?.elim false s.console.router.strays

theorem act_of_event {a : Act} {e : Event} (h : a.event?=some e) (s : Session) (r : Reading) :
    s.act r a=(s.take r e).session := by
  cases a with
  | event e' =>
    cases h
    rfl
  | look => cases h
  | input i =>
    cases i with
    | line text =>
      rw [Act.event?] at h
      show (s.readLine r text).session=(s.take r e).session
      unfold readLine
      cases he : Event.read (Text.trim text) with
      | error fault =>
        rw [he] at h
        cases h
      | ok e' =>
        rw [he] at h
        cases h
        rfl
    | _ => cases h

/-- An act without an event leaves the fleet alone or asks it who is live. -/
theorem fleet_act_of_none {a : Act} (h : a.event?=none) (s : Session) (r : Reading) :
    (s.act r a).fleet=s.fleet ∨ (s.act r a).fleet=(s.fleet.liveDeputies r.steady).2 := by
  cases a with
  | event e => cases h
  | look => exact .inr rfl
  | input i =>
    cases i with
    | line text =>
      left
      show (s.readLine r text).session.fleet=s.fleet
      unfold readLine
      cases he : Event.read (Text.trim text) with
      | error fault => rfl
      | ok e' =>
        rw [Act.event?,he] at h
        cases h
    | reconcile => exact .inr rfl
    | upkeep => exact .inl rfl
    | print => exact .inl rfl

theorem liveCount_act_of_none {a : Act} (h : a.event?=none) (s : Session) (r : Reading)
    (deputy : String) :
    (s.act r a).console.router.liveCount deputy=s.console.router.liveCount deputy := by
  cases a with
  | event e => cases h
  | look => rfl
  | input i =>
    cases i with
    | line text =>
      show (s.readLine r text).session.console.router.liveCount deputy=_
      unfold readLine
      cases he : Event.read (Text.trim text) with
      | error fault => rfl
      | ok e' =>
        rw [Act.event?,he] at h
        cases h
    | upkeep =>
      have hop : (Router.Op.upkeep r.stamp).recounts=false := rfl
      exact Router.liveCount_step hop s.console.router deputy
    | reconcile => rfl
    | print => rfl

theorem router_take (s : Session) (r : Reading) (e : Event) :
    (s.take r e).session.console.router=(e.routerOp r.stamp).elim s.console.router
      (fun op => (s.console.router.step op).2) :=
  s.console.router_step (.event r.stamp e)

theorem fleet_take (s : Session) (r : Reading) (e : Event) :
    (s.take r e).session.fleet=s.fleet.observe r.steady e := rfl

theorem agrees_of_counts {s s' : Session} (h : s.Agrees)
    (hf : ∀ deputy,s'.fleet.count deputy=s.fleet.count deputy)
    (hr : ∀ deputy,s'.console.router.liveCount deputy=s.console.router.liveCount deputy) :
    s'.Agrees := by
  intro deputy
  rw [hf,hr,h]

/-- An event that changes neither number of commands keeps the agreement. -/
theorem agrees_take_of_same {s : Session} (h : s.Agrees) {r : Reading} {e : Event}
    (hf : ∀ deputy,(s.fleet.observe r.steady e).count deputy=s.fleet.count deputy)
    (hop : ∀ op,e.routerOp r.stamp=some op → op.recounts=false) :
    (s.take r e).session.Agrees := by
  refine agrees_of_counts h hf (fun deputy => ?_)
  rw [router_take]
  cases ho : e.routerOp r.stamp with
  | none => rfl
  | some op => exact Router.liveCount_step (hop op ho) s.console.router deputy

/-- The fleet counts every addition, the router only one of a command that is not live. -/
theorem agrees_add_iff {s : Session} (h : s.Agrees) (r : Reading) (command : CommandInfo) :
    (s.take r (.lifecycle (.commandAdded command))).session.Agrees ↔
      s.console.router.channels.contains command.id=false := by
  let s' := (s.take r (.lifecycle (.commandAdded command))).session
  have router : s'.console.router=(s.console.router.step (.add r.stamp command)).2 :=
    router_take s r _
  have counts (deputy : String) : s'.fleet.count deputy=
      s.console.router.liveCount deputy+if command.id.deputy=deputy then 1 else 0 := by
    rw [← h]
    exact s.fleet.count_add r.steady command deputy
  have live (deputy : String) : s'.console.router.liveCount deputy=
      s.console.router.liveCount deputy+
        if s.console.router.channels.contains command.id=false ∧ command.id.deputy=deputy
        then 1 else 0 := by
    rw [router]
    exact Router.liveCount_add s.console.router r.stamp command deputy
  constructor
  · intro ha
    have hd := ha command.id.deputy
    rw [counts,live] at hd
    by_contra hc
    simp [hc] at hd
  · intro hc deputy
    rw [counts,live,hc]
    simp

/-- The fleet counts every removal, the router only one of a live command. Without a live command
of that deputy there is nothing that the fleet could count down. -/
theorem agrees_remove_iff {s : Session} (h : s.Agrees) (r : Reading) (command : CommandInfo) :
    (s.take r (.lifecycle (.commandRemoved command))).session.Agrees ↔
      (s.console.router.channels.contains command.id=false →
        s.console.router.liveCount command.id.deputy=0) := by
  let s' := (s.take r (.lifecycle (.commandRemoved command))).session
  have router : s'.console.router=(s.console.router.step (.remove r.stamp command)).2 :=
    router_take s r _
  have counts (deputy : String) : s'.fleet.count deputy=
      s.console.router.liveCount deputy-if command.id.deputy=deputy then 1 else 0 := by
    rw [← h]
    exact s.fleet.count_remove r.steady command deputy
  have live (deputy : String) : s.console.router.liveCount deputy=
      s'.console.router.liveCount deputy+
        if s.console.router.channels.contains command.id=true ∧ command.id.deputy=deputy
        then 1 else 0 := by
    rw [router]
    exact Router.liveCount_remove s.console.router r.stamp command deputy
  cases hc : s.console.router.channels.contains command.id with
  | true =>
    refine iff_of_true (fun deputy => ?_) (fun absent => nomatch absent)
    have hl := live deputy
    simp only [hc,true_and] at hl
    have hf := counts deputy
    change s'.fleet.count deputy=s'.console.router.liveCount deputy
    omega
  | false =>
    have same (deputy : String) := live deputy
    simp only [hc,Bool.false_eq_true,false_and,if_false,Nat.add_zero] at same
    constructor
    · intro ha _
      have hd := ha command.id.deputy
      rw [counts,← same,if_pos rfl] at hd
      omega
    · intro hz deputy
      rw [counts,← same]
      by_cases e : command.id.deputy=deputy
      · rw [if_pos e,← e,hz rfl]
      · rw [if_neg e,Nat.sub_zero]

theorem agrees_take_iff {s : Session} (h : s.Agrees) (r : Reading) (e : Event) :
    (s.take r e).session.Agrees ↔ s.console.router.strays e=false := by
  cases e with
  | lifecycle event =>
    cases event with
    | commandAdded command => exact agrees_add_iff h r command
    | commandRemoved command =>
      rw [agrees_remove_iff h,Router.strays]
      simp [Nat.pos_iff_ne_zero]
    | statusChanged id oldStatus newStatus =>
      exact iff_of_true (agrees_take_of_same h (fun _ => rfl) (by rintro op ⟨⟩; rfl)) rfl
  | heartbeat beat =>
    exact iff_of_true (agrees_take_of_same h (s.fleet.count_heartbeat r.steady beat)
      (by rintro op ⟨⟩)) rfl
  | _ => exact iff_of_true (agrees_take_of_same h (fun _ => rfl) (by rintro op ⟨⟩ <;> rfl)) rfl

theorem agrees_act_iff {s : Session} (h : s.Agrees) (r : Reading) (a : Act) :
    (s.act r a).Agrees ↔ s.strays a=false := by
  rw [strays]
  cases ha : a.event? with
  | some e =>
    rw [act_of_event ha]
    exact agrees_take_iff h r e
  | none =>
    refine iff_of_true (agrees_of_counts h (fun deputy => ?_) (liveCount_act_of_none ha s r)) rfl
    rcases fleet_act_of_none ha s r with hf | hf
    · rw [hf]
    · rw [hf,ObservedFleet.count_liveDeputies]

theorem agrees_start (config : Config) (saved : Option RateLimit) : (start config saved).Agrees :=
  fun _ => rfl

/-- Fleet and router agree throughout if and only if no event strays. -/
theorem agrees_throughout_iff {s : Session} (h : s.Agrees) (acts : List (Reading × Act)) :
    (∀ n,(s.after (acts.take n)).Agrees) ↔
      ∀ n r a,acts[n]?=some (r,a) → (s.after (acts.take n)).strays a=false := by
  have next {n : Nat} {r : Reading} {a : Act} (hn : acts[n]?=some (r,a)) :
      s.after (acts.take (n+1))=(s.after (acts.take n)).act r a := by
    rw [List.take_add_one,hn,Option.toList_some,after_concat]
  constructor
  · intro ha n r a hn
    have hs := ha (n+1)
    rw [next hn] at hs
    exact (agrees_act_iff (ha n) r a).mp hs
  · intro hs n
    induction n with
    | zero => exact h
    | succ n ih =>
      cases hn : acts[n]? with
      | none =>
        rw [List.take_add_one,hn,Option.toList_none,List.append_nil]
        exact ih
      | some e =>
        obtain ⟨r,a⟩ := e
        rw [next hn]
        exact (agrees_act_iff ih r a).mpr (hs n r a hn)

/-- All heartbeats of a deputy are further back than the time after which it is forgotten. -/
def Silent (acts : List (Reading × Act)) (deputy : String) (forgetAfter now : Nat) : Prop :=
  ∀ r a beat,(r,a)∈acts → a.event?=some (.heartbeat beat) → beat.deputy=deputy →
    forgetAfter<now-r.steady

theorem heard_act {s : Session} {r : Reading} {a : Act} {deputy : String} {t : Nat}
    (h : ((s.act r a).fleet.sighting deputy).lastHeard=some t) :
    (∃ beat,a.event?=some (.heartbeat beat) ∧ beat.deputy=deputy ∧ r.steady=t) ∨
      (s.fleet.sighting deputy).lastHeard=some t := by
  cases ha : a.event? with
  | some e =>
    rw [act_of_event ha,fleet_take] at h
    rcases ObservedFleet.heard_observe h with ⟨beat,rfl,hd,ht⟩ | h
    · exact .inl ⟨beat,rfl,hd,ht⟩
    · exact .inr h
  | none =>
    right
    rcases fleet_act_of_none ha s r with hf | hf
    · exact hf ▸ h
    · rw [hf] at h
      exact ObservedFleet.heard_liveDeputies h

theorem heard_after {config : Config} {saved : Option RateLimit} {acts : List (Reading × Act)}
    {deputy : String} {t : Nat}
    (h : (((start config saved).after acts).fleet.sighting deputy).lastHeard=some t) :
    ∃ r a beat,(r,a)∈acts ∧ a.event?=some (.heartbeat beat) ∧ beat.deputy=deputy ∧ r.steady=t := by
  induction acts using List.reverseRecOn with
  | nil => cases h
  | append_singleton past e ih =>
    obtain ⟨r,a⟩ := e
    rw [after_concat] at h
    rcases heard_act h with ⟨beat,ha,hd,ht⟩ | h
    · exact ⟨r,a,beat,by simp,ha,hd,ht⟩
    · obtain ⟨r',a',beat,hm,rest⟩ := ih h
      exact ⟨r',a',beat,List.mem_append_left _ hm,rest⟩

theorem forgetAfter_after (s : Session) (acts : List (Reading × Act)) :
    (s.after acts).fleet.forgetAfter=s.fleet.forgetAfter := by
  induction acts using List.reverseRecOn with
  | nil => rfl
  | append_singleton past e ih =>
    obtain ⟨r,a⟩ := e
    rw [after_concat,← ih]
    cases ha : a.event? with
    | some e => rw [act_of_event ha,fleet_take,ObservedFleet.forgetAfter_observe]
    | none =>
      rcases fleet_act_of_none ha (s.after past) r with hf | hf
      · rw [hf]
      · rw [hf]
        rfl

theorem not_mem_liveDeputies {config : Config} {saved : Option RateLimit}
    {acts : List (Reading × Act)} {deputy : String} {now : Nat}
    (hc : ((start config saved).after acts).fleet.count deputy=0)
    (hs : Silent acts deputy (ObservedFleet.forgetFactor*config.thresholds.staleAfter) now) :
    deputy∉(((start config saved).after acts).fleet.liveDeputies now).1 := by
  rw [ObservedFleet.mem_liveDeputies,ObservedFleet.isLive,Bool.or_eq_true,not_or]
  constructor
  · have hz : (((start config saved).after acts).fleet.sighting deputy).commands=0 := hc
    simp [hz]
  · intro h
    obtain ⟨t,ht,hle⟩ := (Option.any_eq_true _ _).mp h
    obtain ⟨r,a,beat,hm,ha,hd,rfl⟩ := heard_after ht
    have hlt := hs r a beat hm ha hd
    have hle' := of_decide_eq_true hle
    rw [forgetAfter_after] at hle'
    exact absurd hlt (Nat.not_lt.mpr hle')

theorem monitor_reconcile (s : Session) (r : Reading) :
    (s.act r (.input .reconcile)).console.monitor=
      s.console.monitor.reconcile (s.fleet.liveDeputies r.steady).1 := rfl

/-- As long as no event strays, and no longer, fleet and router count alike. Then a deputy is live
while it has a live command, and forgotten once it has none and is silent long enough. -/
theorem fleet_follows_router (config : Config) (saved : Option RateLimit)
    (acts : List (Reading × Act)) :
    let s (n : Nat) := (start config saved).after (acts.take n)
    ((∀ n,(s n).Agrees) ↔ ∀ n r a,acts[n]?=some (r,a) → (s n).strays a=false) ∧
    ∀ n,(s n).Agrees → ∀ deputy (r : Reading),
      (0<(s n).console.router.liveCount deputy →
        deputy∈((s n).fleet.liveDeputies r.steady).1 ∧
        ((s n).act r (.input .reconcile)).console.monitor.marks deputy=false) ∧
      ((s n).console.router.liveCount deputy=0 →
        Silent (acts.take n) deputy (ObservedFleet.forgetFactor*config.thresholds.staleAfter)
          r.steady →
        deputy∉((s n).fleet.liveDeputies r.steady).1) := by
  intro s
  refine ⟨agrees_throughout_iff (agrees_start config saved) acts,?_⟩
  intro n ha deputy r
  constructor
  · intro hl
    rw [← ha deputy] at hl
    have hm := ObservedFleet.mem_liveDeputies_of_count hl r.steady
    refine ⟨hm,?_⟩
    rw [monitor_reconcile,Monitor.marks,Monitor.get?_reconcile,if_pos hm]
    rfl
  · intro hl hs
    rw [← ha deputy] at hl
    exact not_mem_liveDeputies hl hs

/-- A deputy that is heard once and whose only command comes and goes. -/
def visit : List (Reading × Act) :=
  [(⟨.masked,⟨0,0⟩,0⟩,.event (.heartbeat ⟨"deck",.zero,⟨0,0⟩⟩)),
   (⟨.masked,⟨0,0⟩,1⟩,.event (.lifecycle (.commandAdded Router.camera))),
   (⟨.masked,⟨0,0⟩,2⟩,.event (.lifecycle (.commandRemoved Router.camera)))]

theorem fleet_follows_visit :
    (∀ n,((start .standard none).after (visit.take n)).Agrees) ∧
    (∀ r : Reading,
      "deck"∈(((start .standard none).after (visit.take 2)).fleet.liveDeputies r.steady).1) ∧
    "deck"∉(((start .standard none).after visit).fleet.liveDeputies 15000000001).1 := by
  obtain ⟨agreement,live⟩ := fleet_follows_router .standard none visit
  have agrees := agreement.mpr (by
    intro n r a h
    match n with
    | 0 => cases h; decide +kernel
    | 1 => cases h; decide +kernel
    | 2 => cases h; decide +kernel
    | n+3 => cases h)
  refine ⟨agrees,fun r => ?_,?_⟩
  · exact ((live 2 (agrees 2) "deck" r).1 (by decide +kernel)).1
  · refine (live 3 (agrees 3) "deck" ⟨.masked,⟨0,0⟩,15000000001⟩).2 (by decide +kernel) ?_
    intro r a beat hm ha hd
    rcases List.mem_cons.mp hm with h | hm
    · cases h
      decide
    · rcases List.mem_cons.mp hm with h | hm
      · cases h
        cases ha
      · rcases List.mem_cons.mp hm with h | hm
        · cases h
          cases ha
        · cases hm

/-- A second addition of a live command is rejected but counted, so that its deputy stays for ever.
A removal of a command that is not there is counted against those that are. -/
theorem counts_part :
    let once (event : LifecycleEvent) : Reading × Act :=
      (⟨.masked,⟨0,0⟩,0⟩,.event (.lifecycle event))
    let again := (start .standard none).after
      [once (.commandAdded Router.camera),once (.commandAdded Router.camera),
        once (.commandRemoved Router.camera)]
    let missing := (start .standard none).after
      [once (.commandAdded Router.camera),once (.commandRemoved Router.radar)]
    again.fleet.count "deck"=1 ∧ again.console.router.liveCount "deck"=0 ∧
    (∀ now,"deck"∈(again.fleet.liveDeputies now).1) ∧
    missing.fleet.count "deck"=0 ∧ missing.console.router.liveCount "deck"=1 ∧
    (∀ now,"deck"∉(missing.fleet.liveDeputies now).1) := by
  intro once again missing
  have counted : again.fleet.count "deck"=1 := by decide +kernel
  have forgotten : missing.fleet.sighting "deck"=⟨0,none⟩ := by decide +kernel
  refine ⟨counted,by decide +kernel,fun now => ?_,?_,by decide +kernel,fun now => ?_⟩
  · exact ObservedFleet.mem_liveDeputies_of_count (counted ▸ Nat.one_pos) now
  · rw [ObservedFleet.count,forgotten]
  · rw [ObservedFleet.mem_liveDeputies,forgotten,ObservedFleet.isLive_unseen]
    exact Bool.false_ne_true

end Session

end FleetConsole
