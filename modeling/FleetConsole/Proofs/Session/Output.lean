import FleetConsole.Proofs.Console.Step
import FleetConsole.Proofs.Router.Printed
import FleetConsole.Session.Program

namespace FleetConsole

namespace Session

/-- The event that an input brings, if it brings one. -/
def Input.event? : Input → Option Event
  | .line text => (Event.read (Text.trim text)).toOption
  | _ => none

/-- What an input is to the router and the printer, if it is anything to them. -/
def Input.act (r : Reading) : Input → Option Watch.Act
  | .line text =>
    ((Input.line text).event?.bind (fun event => event.routerOp r.stamp)).map .work
  | .upkeep => some (.work (.upkeep r.stamp))
  | .reconcile => none
  | .print => some .tick

def stops (e : Reading × Input) : Bool := decide (e.2.event?=some .shutdown)

/-- Inputs after a shutdown are not taken. -/
def acts (inputs : List (Reading × Input)) : List Watch.Act :=
  (inputs.takeWhile (fun e => !stops e)).filterMap (fun e => e.2.act e.1)

/-- A session has the router and the printer of a watch. -/
structure Matches (s : Session) (w : Watch) : Prop where
  router : s.console.router=w.router
  printed : s.printed=w.printed

theorem step_line_none {text : List Char} (h : (Input.line text).event?=none) (s : Session)
    (r : Reading) : s.step r (.line text)=s.quietly := by
  rw [Input.event?] at h
  rw [step,readLine]
  cases he : Event.read (Text.trim text) with
  | error fault => rfl
  | ok event =>
    rw [he] at h
    cases h

theorem step_line_some {text : List Char} {event : Event}
    (h : (Input.line text).event?=some event) (s : Session) (r : Reading) :
    s.step r (.line text)=s.take r event := by
  rw [Input.event?] at h
  rw [step,readLine]
  cases he : Event.read (Text.trim text) with
  | error fault =>
    rw [he] at h
    cases h
  | ok event' =>
    rw [he] at h
    obtain rfl := Option.some.inj h
    rfl

theorem matches_step {s : Session} {w : Watch} (h : s.Matches w) (r : Reading) (input : Input) :
    let p := s.step r input
    let w' := (input.act r).elim w w.step
    p.session.Matches w' ∧ w'.output.map Line.text=w.output.map Line.text++p.output ∧
    (p.flow=.stop ↔ stops (r,input)=true) := by
  intro p w'
  have router := h.router
  have quiet (event : Option Event) (hn : event≠some .shutdown) :
      Flow.proceed=Flow.stop ↔ decide (event=some .shutdown)=true := by simp [hn]
  cases input with
  | line text =>
    cases he : (Input.line text).event? with
    | none =>
      have step : p=s.quietly := step_line_none he s r
      have act : w'=w := by simp only [w',Input.act,he]; rfl
      rw [step,act,stops,he]
      exact ⟨h,(List.append_nil _).symm,quiet none nofun⟩
    | some event =>
      have step : p=s.take r event := step_line_some he s r
      have flow : p.flow=.stop ↔ stops (r,.line text)=true := by
        rw [step,stops,he,decide_eq_true_iff,Option.some.injEq]
        exact s.console.flow_step r.stamp event
      have moved : p.session.console.router=
          (event.routerOp r.stamp).elim s.console.router (fun op => (s.console.router.step op).2) := by
        rw [step]
        exact s.console.router_step (.event r.stamp event)
      have act : w'=((event.routerOp r.stamp).map Watch.Act.work).elim w w.step := by
        simp only [w',Input.act,he]
        rfl
      refine ⟨⟨?_,?_⟩,?_,flow⟩
      · rw [moved,act,router]
        cases event.routerOp r.stamp <;> rfl
      · rw [step,act]
        cases event.routerOp r.stamp <;> exact h.printed
      · rw [step,act]
        cases event.routerOp r.stamp <;> exact (List.append_nil _).symm
  | upkeep =>
    refine ⟨⟨?_,h.printed⟩,(List.append_nil _).symm,quiet none nofun⟩
    change (s.console.router.step (.upkeep r.stamp)).2=(w.router.step (.upkeep r.stamp)).2
    rw [router]
  | reconcile => exact ⟨⟨router,h.printed⟩,(List.append_nil _).symm,quiet none nofun⟩
  | print =>
    have tick : LinePrinter.tick s.printed s.console.router.global.buffer=
        LinePrinter.tick w.printed w.log := by
      rw [h.printed,router]
      rfl
    refine ⟨⟨router,congrArg Prod.snd tick⟩,?_,quiet none nofun⟩
    change (w.output++(LinePrinter.tick w.printed w.log).1).map Line.text=
      _++(LinePrinter.tick s.printed s.console.router.global.buffer).1.map Line.text
    rw [tick,List.map_append]

theorem act_of_stops {r : Reading} {input : Input} (h : stops (r,input)=true) :
    input.act r=none := by
  have shutdown : input.event?=some .shutdown := of_decide_eq_true h
  cases input with
  | line text =>
    rw [Input.act,shutdown]
    rfl
  | _ => cases shutdown

theorem matches_run {s : Session} {w : Watch} (h : s.Matches w)
    (inputs : List (Reading × Input)) :
    let p := s.run inputs
    let w' := (acts inputs).foldl Watch.step w
    p.session.Matches w' ∧ w'.output.map Line.text=w.output.map Line.text++p.output := by
  induction inputs generalizing s w with
  | nil => exact ⟨h,(List.append_nil _).symm⟩
  | cons e rest ih =>
    obtain ⟨r,input⟩ := e
    obtain ⟨first,output,flow⟩ := matches_step h r input
    rw [run,acts]
    cases hp : s.step r input with
    | mk flow' signals lines s' =>
      rw [hp] at first output flow
      cases flow' with
      | stop =>
        have stop : stops (r,input)=true := flow.mp rfl
        rw [act_of_stops stop] at first output
        rw [List.takeWhile_cons_of_neg (by simp [stop])]
        exact ⟨first,output⟩
      | proceed =>
        have go : stops (r,input)=false := by
          rw [← Bool.not_eq_true]
          exact fun stop => Flow.noConfusion (flow.mpr stop)
        obtain ⟨last,later⟩ := ih first
        rw [List.takeWhile_cons_of_pos (by simp [go]),List.filterMap_cons]
        rw [output,List.append_assoc] at later
        cases ha : input.act r with
        | none =>
          rw [ha] at last later
          exact ⟨last,later⟩
        | some act =>
          rw [ha] at last later
          exact ⟨last,later⟩

theorem output_finish {s : Session} {w : Watch} (h : s.Matches w) (last : Reading) :
    (s.finish last).output=
      (LinePrinter.flush (w.step (.work (.upkeep last.stamp))).printed
        (w.step (.work (.upkeep last.stamp))).log).map Line.text := by
  obtain ⟨ended,_,_⟩ := matches_step h last .upkeep
  have router : (s.console.step (.upkeep last.stamp)).console.router=_ := ended.router
  have printed : s.printed=_ := ended.printed
  rw [finish,printed,router]
  rfl

end Session

/-- A program prints the lines that a printer prints beside the router, and nothing else. -/
theorem Program.output_run {args : List String} {config : Config}
    (h : configure args=.ok config) (configDir : FilePath) (files : FileTree)
    (inputs : List (Reading × Session.Input)) (last : Reading) :
    (run args configDir files inputs last).output=
      (Watch.printedBy
        (config.routerConfig
          (Settings.ofReadOrEmpty (files.read (settingsPath config configDir))).rateLimit)
        (Session.acts inputs) last.stamp).map Line.text := by
  generalize hs : Settings.ofReadOrEmpty (files.read (settingsPath config configDir))=settings
  have start : (Session.start config settings.rateLimit).Matches
      (Watch.start (config.routerConfig settings.rateLimit)) := ⟨rfl,rfl⟩
  obtain ⟨ran,printed⟩ := Session.matches_run start inputs
  have left := Session.output_finish ran last
  rw [Watch.printedBy,Watch.after_concat,List.map_append]
  simp only [run,h,hs]
  rw [left]
  exact congrArg (·++_) printed.symm

end FleetConsole
