import FleetConsole.Proofs.Console.Step
import FleetConsole.Proofs.Router.Ticks

namespace FleetConsole

def Signal.report? : Signal → Option DropReport
  | .dropped report => some report
  | _ => none

namespace Console

/-- Events come from outside; the other inputs are ticks of the timers. -/
def Input.isEvent : Input → Bool
  | .event .. => true
  | _ => false

def Input.stops : Input → Bool
  | .event _ .shutdown => true
  | _ => false

/-- What a run is to the router. Inputs after a shutdown are not taken. -/
def routerOps (inputs : List Input) : List Router.Op :=
  (inputs.takeWhile (fun input => !input.stops)).filterMap Input.routerOp

def delivery (c : Console) : Input → List Router.Delivery
  | .event _ (.output message) =>
    [⟨message,c.router.channels.contains message.command,(c.ingest message).1⟩]
  | _ => []

/-- The messages that a run takes, and what becomes of them. -/
def deliveries (c : Console) : List Input → List Router.Delivery
  | [] => []
  | input :: rest =>
    match c.step input with
    | ⟨.stop,_,_⟩ => c.delivery input
    | ⟨.proceed,_,c'⟩ => c.delivery input++c'.deliveries rest

theorem step_of_stops {input : Input} (h : input.stops=true) (c : Console) :
    c.step input=⟨.stop,[],c⟩ := by
  cases input with
  | event stamp event =>
    cases event with
    | shutdown => rfl
    | _ => cases h
  | _ => cases h

theorem flow_of_not_stops {input : Input} (h : input.stops=false) (c : Console) :
    (c.step input).flow=.proceed := by
  cases input with
  | event stamp event =>
    cases hf : (c.step (.event stamp event)).flow with
    | proceed => rfl
    | stop =>
      rw [(c.flow_step stamp event).mp hf] at h
      cases h
  | _ => rfl

theorem delivery_eq (c : Console) (input : Input) :
    c.delivery input=input.routerOp.elim [] c.router.delivery := by
  cases input with
  | event stamp event =>
    cases event with
    | lifecycle event => cases event <;> rfl
    | _ => rfl
  | _ => rfl

/-- The reports among a step's signals are those of the router. -/
theorem reports_step (c : Console) (input : Input) :
    (c.step input).signals.filterMap Signal.report?=
      input.routerOp.elim [] (fun op => Router.Answered.reports (op,(c.router.step op).1)) := by
  cases input with
  | event stamp event =>
    cases h : event.routerOp stamp with
    | some op =>
      have quiet : Router.Answered.reports (op,(c.router.step op).1)=[] := by
        cases op with
        | upkeep stamp' =>
          exfalso
          cases event with
          | lifecycle event => cases event <;> cases h
          | _ => cases h
        | _ => rfl
      rw [step_of_routerOp h,Input.routerOp,h]
      exact quiet.symm
    | none =>
      rw [Input.routerOp,h]
      cases event with
      | cleanupDeputies =>
        change (cleanupSignals c.cleanupDeputies.1).filterMap Signal.report?=[]
        rw [cleanupSignals]
        split <;> rfl
      | _ => first | rfl | cases h
  | upkeep stamp =>
    change ((c.upkeep stamp).1.map Signal.dropped).filterMap Signal.report?=(c.router.upkeep stamp).1
    rw [List.filterMap_map]
    exact List.filterMap_some
  | reconcile live now => rfl

theorem run_of_stops {input : Input} (h : input.stops=true) (c : Console) (rest : List Input) :
    c.run (input :: rest)=⟨.stop,[],c⟩ := by
  rw [run,step_of_stops h]

theorem run_of_not_stops {input : Input} (h : input.stops=false) (c : Console) (rest : List Input) :
    c.run (input :: rest)=
      let last := (c.step input).console.run rest
      { last with signals := (c.step input).signals++last.signals } := by
  have flow := flow_of_not_stops h c
  rw [run]
  cases hs : c.step input with
  | mk flow' signals c' =>
    rw [hs] at flow
    cases flow
    rfl

theorem deliveries_of_not_stops {input : Input} (h : input.stops=false) (c : Console)
    (rest : List Input) :
    c.deliveries (input :: rest)=c.delivery input++(c.step input).console.deliveries rest := by
  have flow := flow_of_not_stops h c
  rw [deliveries]
  cases hs : c.step input with
  | mk flow' signals c' =>
    rw [hs] at flow
    cases flow
    rfl

theorem routerOp_of_stops {input : Input} (h : input.stops=true) : input.routerOp=none := by
  cases input with
  | event stamp event =>
    cases event with
    | shutdown => rfl
    | _ => cases h
  | _ => cases h

theorem routerOps_of_stops {input : Input} (h : input.stops=true) (rest : List Input) :
    routerOps (input :: rest)=[] := by
  rw [routerOps,List.takeWhile_cons_of_neg (by simp [h])]
  rfl

theorem routerOps_of_not_stops {input : Input} (h : input.stops=false) (rest : List Input) :
    routerOps (input :: rest)=input.routerOp.toList++routerOps rest := by
  rw [routerOps,List.takeWhile_cons_of_pos (by simp [h]),List.filterMap_cons]
  cases input.routerOp <;> rfl

/-- A run, told from what it is to the router. -/
structure Told (c : Console) (inputs : List Input) : Prop where
  flow : (c.run inputs).flow=if inputs.any Input.stops then .stop else .proceed
  router : (c.run inputs).console.router=(c.router.run (routerOps inputs)).2
  deliveries : c.deliveries inputs=c.router.deliveries (routerOps inputs)
  reports : (c.run inputs).signals.filterMap Signal.report?=
    (c.router.past (routerOps inputs)).reverse.flatMap Router.Answered.reports

theorem told_of_stops {input : Input} (h : input.stops=true) (c : Console) (rest : List Input) :
    c.Told (input :: rest) := by
  have whole := run_of_stops h c rest
  have none := routerOps_of_stops h rest
  constructor
  · rw [whole,List.any_cons,h]
    rfl
  · rw [whole,none]
    rfl
  · rw [none,Console.deliveries,step_of_stops h,delivery_eq,routerOp_of_stops h]
    rfl
  · rw [whole,none]
    rfl

theorem told_of_not_stops {input : Input} (h : input.stops=false) {c : Console}
    {rest : List Input} (later : (c.step input).console.Told rest) : c.Told (input :: rest) := by
  have whole := run_of_not_stops h c rest
  have ops := routerOps_of_not_stops h rest
  have router := c.router_step input
  have reports := c.reports_step input
  have delivered := c.delivery_eq input
  constructor
  · rw [whole,List.any_cons,h]
    exact later.flow
  · rw [whole,ops]
    refine later.router.trans ?_
    rw [router]
    cases input.routerOp <;> rfl
  · rw [ops,deliveries_of_not_stops h,later.deliveries,delivered,router]
    cases input.routerOp <;> rfl
  · rw [whole,ops]
    refine (List.filterMap_append ..).trans ?_
    rw [later.reports,reports,router]
    cases input.routerOp with
    | none => rfl
    | some op =>
      have split : [op]++routerOps rest=op :: routerOps rest := rfl
      rw [Option.toList_some,split,Router.past_cons,List.reverse_append,List.flatMap_append,
        List.reverse_singleton,List.flatMap_singleton]
      rfl

theorem told (c : Console) (inputs : List Input) : c.Told inputs := by
  induction inputs generalizing c with
  | nil => exact ⟨rfl,rfl,rfl,rfl⟩
  | cons input rest ih =>
    cases h : input.stops with
    | true => exact told_of_stops h c rest
    | false => exact told_of_not_stops h (ih _)

theorem unticked_routerOps (inputs : List Input) :
    Router.unticked (routerOps inputs)=routerOps (inputs.filter Input.isEvent) := by
  induction inputs with
  | nil => rfl
  | cons input rest ih =>
    cases input with
    | event stamp event =>
      rw [List.filter_cons_of_pos rfl]
      cases h : (Input.event stamp event).stops with
      | true => rw [routerOps_of_stops h,routerOps_of_stops h]; rfl
      | false =>
        rw [routerOps_of_not_stops h,routerOps_of_not_stops h,← ih,Router.unticked,Router.unticked,
          List.filter_append]
        congr 1
        cases event with
        | lifecycle event => cases event <;> rfl
        | _ => rfl
    | upkeep stamp =>
      rw [routerOps_of_not_stops rfl,List.filter_cons_of_neg Bool.false_ne_true,← ih]
      rfl
    | reconcile live now =>
      rw [routerOps_of_not_stops rfl,List.filter_cons_of_neg Bool.false_ne_true,← ih]
      rfl

theorem any_stops_filter (inputs : List Input) :
    inputs.any Input.stops=(inputs.filter Input.isEvent).any Input.stops := by
  induction inputs with
  | nil => rfl
  | cons input rest ih =>
    cases input with
    | event stamp event => rw [List.filter_cons_of_pos rfl,List.any_cons,List.any_cons,ih]
    | _ =>
      rw [List.filter_cons_of_neg Bool.false_ne_true,List.any_cons,ih]
      rfl

/-- A run without ticks, and what the ticks change about it. -/
theorem ticks_left_out (config : RouterConfig) (thresholds : Thresholds) {inputs : List Input}
    (fits : Router.Fits config (routerOps (inputs.filter Input.isEvent))) :
    let c := Console.new config thresholds
    let events := routerOps (inputs.filter Input.isEvent)
    Router.Untimed (c.run inputs).console.router ((Router.new config).run events).2 ∧
    c.deliveries inputs=(Router.new config).deliveries events ∧
    (∀ d∈c.deliveries inputs,d.Whole) ∧ ∀ report,.dropped report∉(c.run inputs).signals := by
  intro c events
  have told := c.told inputs
  rw [← unticked_routerOps] at fits
  obtain ⟨same,delivered,whole,silent⟩ := Router.unticked_same config (routerOps inputs) fits
  rw [unticked_routerOps] at same delivered
  refine ⟨?_,told.deliveries.trans delivered,?_,?_⟩
  · rw [told.router]
    exact same
  · rw [told.deliveries]
    exact whole
  · intro report hm
    have reported : report∈(c.run inputs).signals.filterMap Signal.report? :=
      List.mem_filterMap.mpr ⟨_,hm,rfl⟩
    rw [told.reports] at reported
    obtain ⟨e,he,hr⟩ := List.mem_flatMap.mp reported
    rw [silent e (List.mem_reverse.mp he)] at hr
    cases hr

/-- When the timers fire does not show in output that fits the quotas: two runs with the same
events deliver the same, report nothing and end with the same commands, logs and counters. -/
theorem ticks_invisible (config : RouterConfig) (thresholds : Thresholds) (a b : List Input)
    (same : a.filter Input.isEvent=b.filter Input.isEvent)
    (fits : Router.Fits config (routerOps (a.filter Input.isEvent))) :
    let c := Console.new config thresholds
    let left := (c.run a).console.router
    let right := (c.run b).console.router
    (c.run a).flow=(c.run b).flow ∧
    c.deliveries a=c.deliveries b ∧ (∀ d∈c.deliveries a,d.Whole) ∧
    (∀ report,.dropped report∉(c.run a).signals ∧ .dropped report∉(c.run b).signals) ∧
    left.channels.keys=right.channels.keys ∧
    (∀ id,(left.channels.get? id).map Channel.untimed=(right.channels.get? id).map Channel.untimed) ∧
    left.global=right.global ∧ left.config=right.config := by
  intro c left right
  obtain ⟨untimed,delivered,whole,silent⟩ := ticks_left_out config thresholds fits
  rw [same] at fits untimed delivered
  obtain ⟨untimed',delivered',_,silent'⟩ := ticks_left_out config thresholds fits
  have channels (id : CommandId) := (untimed.channels id).trans (untimed'.channels id).symm
  refine ⟨?_,delivered.trans delivered'.symm,whole,fun report => ⟨silent report,silent' report⟩,?_,
    channels,untimed.global.trans untimed'.global.symm,untimed.config.trans untimed'.config.symm⟩
  · rw [(c.told a).flow,(c.told b).flow,any_stops_filter a,same,← any_stops_filter b]
  · have all : left.channels.mapValues (fun _ c => c.untimed)=
        right.channels.mapValues (fun _ c => c.untimed) := by
      apply SortedMap.ext_get?
      intro id
      rw [SortedMap.get?_mapValues,SortedMap.get?_mapValues]
      exact channels id
    have names := congrArg SortedMap.keys all
    simpa only [SortedMap.keys,SortedMap.mapValues,List.map_map,Function.comp_def] using names

/-- Two messages that use the quota up, with ticks of both timers before, between and after them. -/
def spread : List Input :=
  [.upkeep .masked,.event .masked (.lifecycle (.commandAdded Router.camera)),.upkeep .masked,
    .event .masked (.output ⟨Router.camera.id,"ab"⟩),.reconcile ["deck"] ⟨7,0⟩,.upkeep .masked,
    .event .masked (.output ⟨Router.camera.id,"cde\n"⟩),.upkeep .masked]

/-- The same events with hardly a tick. -/
def bunched : List Input := spread.filter Input.isEvent++[.reconcile [] ⟨8,0⟩]

/-- A console that lets six bytes pass. -/
def narrow : Console := new (.ofQuota 6 9) .standard

theorem ticks_invisible_in_spread :
    spread.filter Input.isEvent=bunched.filter Input.isEvent ∧
    Router.Fits (.ofQuota 6 9) (routerOps (spread.filter Input.isEvent)) ∧
    narrow.deliveries spread=narrow.deliveries bunched ∧
    (narrow.run spread).console.router.global=(narrow.run bunched).console.router.global ∧
    (narrow.deliveries bunched).map Router.Delivery.outcome=[.accepted 2,.accepted 4] := by
  have same : spread.filter Input.isEvent=bunched.filter Input.isEvent := by decide +kernel
  have fits : Router.Fits (.ofQuota 6 9) (routerOps (spread.filter Input.isEvent)) :=
    Router.fits_of_total (by decide +kernel) (by decide +kernel)
  obtain ⟨_,delivered,_,_,_,_,global,_⟩ :=
    ticks_invisible (.ofQuota 6 9) .standard spread bunched same fits
  have outcomes : (narrow.deliveries bunched).map Router.Delivery.outcome=
      [.accepted 2,.accepted 4] := by decide +kernel
  exact ⟨same,fits,delivered,global,outcomes⟩

end Console

end FleetConsole
