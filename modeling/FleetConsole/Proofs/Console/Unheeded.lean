import FleetConsole.Proofs.Console.TickTiming

namespace FleetConsole

namespace Router

/-- A text without characters changes nothing, not even where its command is live. -/
theorem ingest_empty {message : OutputMessage} (h : message.text="") (r : Router) :
    (r.ingest message).2=r := by
  cases hl : r.channels.get? message.command with
  | none => rw [ingest_none hl]
  | some c =>
    have same : c.ingest []=c := rfl
    have kept : c.affordable []=[] := rfl
    rw [ingest_some hl,h]
    simp only [String.toList_empty,kept,same,if_true]
    have channels : r.channels.insert message.command c=r.channels := by
      apply SortedMap.ext_get?
      intro id
      rw [SortedMap.get?_insert]
      split
      next own => rw [← own,hl]
      next => rfl
    rw [channels]

theorem outcome_ne_unknown (accepted dropped : Nat) :
    Router.outcome accepted dropped≠.unknownCommand := by
  rw [Router.outcome]
  intro unknown
  split at unknown
  · cases unknown
  · split at unknown <;> cases unknown

theorem ingest_unknown_iff (r : Router) (message : OutputMessage) :
    (r.ingest message).1=.unknownCommand ↔ r.channels.contains message.command=false := by
  rw [contains_eq_isSome]
  cases h : r.channels.get? message.command with
  | none =>
    rw [ingest_none h]
    exact ⟨fun _ => rfl,fun _ => rfl⟩
  | some c =>
    rw [ingest_some h]
    exact ⟨fun unknown => absurd unknown (outcome_ne_unknown _ _),fun dead => (by cases dead)⟩

theorem found_remove (r : Router) (stamp : Stamp) (command : CommandInfo) :
    (r.remove stamp command).1=r.channels.contains command.id := by
  rw [remove]
  split
  next live => exact live.symm
  next dead => exact (Bool.eq_false_iff.mpr dead).symm

theorem add_error_iff (r : Router) (stamp : Stamp) (command : CommandInfo) (error : ConsoleError) :
    r.add stamp command=.error error ↔
      error=.duplicateCommand command.id ∧ r.channels.contains command.id=true := by
  rw [add]
  split
  next live =>
    constructor
    · intro h
      cases h
      exact ⟨rfl,live⟩
    · rintro ⟨rfl,_⟩
      rfl
  next dead => exact ⟨fun h => (by cases h),fun h => absurd h.2 dead⟩

theorem setMaxLines_error_iff (r : Router) (maxLines : Nat) (error : ConsoleError) :
    r.setMaxLines maxLines=.error error ↔
      error=.invalidConfig .noRetainedLines ∧ maxLines=0 := by
  rw [setMaxLines]
  split
  next zero =>
    constructor
    · intro h
      cases h
      exact ⟨rfl,zero⟩
    · rintro ⟨rfl,_⟩
      rfl
  next nonzero => exact ⟨fun h => (by cases h),fun h => absurd h.2 nonzero⟩

end Router

namespace Console

/-- Whether an event is taken as an error. -/
def rejects (c : Console) (stamp : Stamp) (event : Event) : Bool := !(c.dispatch stamp event).isOk

/-- Whether an event is taken without effect: an output without text, or an output or a removal
of a command that is not there. -/
def ignores (c : Console) (stamp : Stamp) : Event → Bool
  | .output message => decide (message.text="") || decide ((c.ingest message).1=.unknownCommand)
  | .lifecycle (.commandRemoved command) => !(c.router.remove stamp command).1
  | _ => false

def heeds (c : Console) : Input → Bool
  | .event stamp event => !c.rejects stamp event && !c.ignores stamp event
  | _ => true

/-- What a run heeds of its inputs, up to the first shutdown. -/
def heeded (c : Console) : List Input → List Input
  | [] => []
  | input :: rest =>
    if input.stops then [input]
    else
      let later := (c.step input).console.heeded rest
      if c.heeds input then input :: later else later

/-- What an input makes of a command by an event that takes effect: a live command by an addition,
and none by a removal. -/
def turn (c : Console) (id : CommandId) : Input → Option Bool
  | .event stamp (.lifecycle (.commandAdded command)) =>
    if command.id=id ∧ c.rejects stamp (.lifecycle (.commandAdded command))=false then some true
    else none
  | .event stamp (.lifecycle (.commandRemoved command)) =>
    if command.id=id ∧ (c.router.remove stamp command).1=true then some false else none
  | _ => none

/-- Additions and removals of a command that took effect, oldest first. -/
def turns (c : Console) (id : CommandId) : List Input → List Bool
  | [] => []
  | input :: rest => (c.turn id input).toList++(c.step input).console.turns id rest

theorem dispatch_add (c : Console) (stamp : Stamp) (command : CommandInfo) :
    c.dispatch stamp (.lifecycle (.commandAdded command))=
      (c.router.add stamp command).map (fun router => silently { c with router := router }) := rfl

theorem dispatch_setMaxLines (c : Console) (stamp : Stamp) (lines : UInt64) :
    c.dispatch stamp (.setMaxLines lines)=
      (c.router.setMaxLines lines.toNat).map
        (fun router => silently { c with router := router }) := rfl

private theorem map_error_iff {ε α β : Type} {x : Except ε α} {f : α → β} {e : ε} :
    x.map f=.error e ↔ x=.error e := by
  cases x with
  | error e' => exact ⟨fun h => by cases h; rfl,fun h => by cases h; rfl⟩
  | ok a => exact ⟨fun h => (by cases h),fun h => (by cases h)⟩

/-- An addition fails exactly for a command that is live. -/
theorem dispatch_add_error_iff (c : Console) (stamp : Stamp) (command : CommandInfo)
    (error : ConsoleError) :
    c.dispatch stamp (.lifecycle (.commandAdded command))=.error error ↔
      error=.duplicateCommand command.id ∧ c.router.channels.contains command.id=true := by
  rw [dispatch_add,map_error_iff,Router.add_error_iff]

theorem dispatch_setMaxLines_error_iff (c : Console) (stamp : Stamp) (lines : UInt64)
    (error : ConsoleError) :
    c.dispatch stamp (.setMaxLines lines)=.error error ↔
      error=.invalidConfig .noRetainedLines ∧ lines=0 := by
  rw [dispatch_setMaxLines,map_error_iff,Router.setMaxLines_error_iff,
    show lines.toNat=0 ↔ lines=0 from UInt64.toNat_inj (b := 0)]

theorem rejects_add (c : Console) (stamp : Stamp) (command : CommandInfo) :
    c.rejects stamp (.lifecycle (.commandAdded command))=
      c.router.channels.contains command.id := by
  rw [rejects,dispatch_add,Router.add]
  cases h : c.router.channels.contains command.id <;> rfl

theorem step_of_rejects {c : Console} {stamp : Stamp} {event : Event}
    (h : c.rejects stamp event=true) : c.step (.event stamp event)=c.silently := by
  rw [rejects] at h
  rw [step]
  cases hd : c.dispatch stamp event with
  | error e => rfl
  | ok dispatched =>
    rw [hd] at h
    cases h

theorem step_of_ignores {c : Console} {stamp : Stamp} {event : Event}
    (h : c.ignores stamp event=true) : c.step (.event stamp event)=c.silently := by
  cases event with
  | output message =>
    have same : (c.router.ingest message).2=c.router := by
      rw [ignores,Bool.or_eq_true,decide_eq_true_eq,decide_eq_true_eq] at h
      rcases h with empty | unknown
      · exact Router.ingest_empty empty c.router
      · have dead := (Router.ingest_unknown_iff c.router message).mp unknown
        rw [Router.contains_eq_isSome,Option.isSome_eq_false_iff,Option.isNone_iff_eq_none] at dead
        rw [Router.ingest_none dead]
    change silently { c with router := (c.router.ingest message).2 }=c.silently
    rw [same]
  | lifecycle event =>
    cases event with
    | commandRemoved command =>
      have dead : c.router.channels.contains command.id=false := by
        rw [← Router.found_remove c.router stamp command]
        simpa only [ignores,Bool.not_eq_true'] using h
      have same : (c.router.remove stamp command).2=c.router := by
        rw [Router.remove,if_neg (Bool.eq_false_iff.mp dead)]
      change silently { c with router := (c.router.remove stamp command).2 }=c.silently
      rw [same]
    | _ => cases h
  | _ => cases h

theorem step_of_not_heeds {c : Console} {input : Input} (h : c.heeds input=false) :
    c.step input=c.silently := by
  cases input with
  | event stamp event =>
    rw [heeds,Bool.and_eq_false_iff,Bool.not_eq_false',Bool.not_eq_false'] at h
    rcases h with rejected | ignored
    · exact step_of_rejects rejected
    · exact step_of_ignores ignored
  | _ => cases h

theorem heeded_of_stops {input : Input} (h : input.stops=true) (c : Console) (rest : List Input) :
    c.heeded (input :: rest)=[input] := by
  rw [heeded,if_pos h]

theorem heeded_of_heeds {c : Console} {input : Input} (go : input.stops=false)
    (h : c.heeds input=true) (rest : List Input) :
    c.heeded (input :: rest)=input :: (c.step input).console.heeded rest := by
  rw [heeded,if_neg (Bool.eq_false_iff.mp go)]
  exact if_pos h

theorem heeded_of_not_heeds {c : Console} {input : Input} (go : input.stops=false)
    (h : c.heeds input=false) (rest : List Input) :
    c.heeded (input :: rest)=c.heeded rest := by
  rw [heeded,if_neg (Bool.eq_false_iff.mp go)]
  refine (if_neg (Bool.eq_false_iff.mp h)).trans ?_
  rw [step_of_not_heeds h]
  rfl

/-- A run ends as the run of what it heeds, with the same signals. -/
theorem run_heeded (c : Console) (inputs : List Input) : c.run (c.heeded inputs)=c.run inputs := by
  induction inputs generalizing c with
  | nil => rfl
  | cons input rest ih =>
    cases go : input.stops with
    | true => rw [heeded_of_stops go,run_of_stops go,run_of_stops go]
    | false =>
      rw [run_of_not_stops go c rest]
      cases h : c.heeds input with
      | true => rw [heeded_of_heeds go h,run_of_not_stops go,ih]
      | false =>
        rw [heeded_of_not_heeds go h,ih,step_of_not_heeds h]
        rfl

theorem heeded_sublist (c : Console) (inputs : List Input) :
    (c.heeded inputs).Sublist inputs := by
  induction inputs generalizing c with
  | nil => exact .slnil
  | cons input rest ih =>
    cases go : input.stops with
    | true =>
      rw [heeded_of_stops go]
      exact (List.nil_sublist rest).cons_cons input
    | false =>
      cases h : c.heeds input with
      | true =>
        rw [heeded_of_heeds go h]
        exact (ih _).cons_cons input
      | false =>
        rw [heeded_of_not_heeds go h]
        exact (ih c).cons input

theorem contains_step (c : Console) (input : Input) (id : CommandId) :
    (c.step input).console.router.channels.contains id=
      (c.turn id input).getD (c.router.channels.contains id) := by
  rw [router_step]
  cases hop : input.routerOp with
  | none =>
    cases input with
    | event stamp event =>
      cases event with
      | lifecycle event => cases hop
      | _ => rfl
    | _ => rfl
  | some op =>
    rw [Option.elim_some,Router.contains_step,Router.contains_eq_isSome]
    cases input with
    | reconcile live now => cases hop
    | upkeep stamp =>
      cases hop
      exact Option.isSome_map ..
    | event stamp event =>
      cases event with
      | lifecycle event =>
        cases hop
        cases event with
        | commandAdded command =>
          rw [turn,rejects_add,LifecycleEvent.routerOp,Router.Op.onChannel,
            Router.contains_eq_isSome]
          by_cases own : command.id=id
          · subst own
            cases hl : c.router.channels.get? command.id <;> simp
          · simp [own]
        | commandRemoved command =>
          rw [turn,Router.found_remove,LifecycleEvent.routerOp,Router.Op.onChannel,
            Router.contains_eq_isSome]
          by_cases own : command.id=id
          · subst own
            cases hl : c.router.channels.get? command.id <;> simp
          · simp [own]
        | statusChanged name oldStatus newStatus => rfl
      | output message =>
        cases hop
        rw [Router.Op.onChannel]
        split
        · exact Option.isSome_map ..
        · rfl
      | setRateLimit limit =>
        cases hop
        exact Option.isSome_map ..
      | setMaxLines lines =>
        cases hop
        rw [Router.Op.onChannel]
        split
        · rfl
        · exact Option.isSome_map ..
      | clearGlobal =>
        cases hop
        rfl
      | _ => cases hop

/-- A command is live as the last event that took effect left it. -/
theorem contains_after (c : Console) (inputs : List Input) (id : CommandId) :
    (c.after inputs).router.channels.contains id=
      (c.turns id inputs).getLast?.getD (c.router.channels.contains id) := by
  induction inputs generalizing c with
  | nil => rfl
  | cons input rest ih =>
    change ((c.step input).console.after rest).router.channels.contains id=_
    rw [ih,contains_step,turns,List.getLast?_append]
    cases (((c.step input).console).turns id rest).getLast? with
    | none => cases c.turn id input <;> rfl
    | some live => rfl

/-- A removal changes something exactly for a command that is live. -/
theorem remove_effective_iff (c : Console) (stamp : Stamp) (command : CommandInfo) :
    (c.step (.event stamp (.lifecycle (.commandRemoved command)))).console≠c ↔
      c.router.channels.contains command.id=true := by
  have found := Router.found_remove c.router stamp command
  constructor
  · intro changed
    cases live : c.router.channels.contains command.id with
    | true => rfl
    | false =>
      refine absurd ?_ changed
      rw [step_of_ignores (by rw [ignores,found,live]; rfl)]
      rfl
  · intro live same
    have gone := c.contains_step (.event stamp (.lifecycle (.commandRemoved command))) command.id
    rw [same,turn,found,live] at gone
    simp at gone

/-- Rejected and ignored events leave no trace: a run ends in the same state and with the same
signals without them and without what stands behind the first shutdown. -/
theorem unheeded_leave_no_trace (config : RouterConfig) (thresholds : Thresholds)
    (inputs : List Input) :
    let c := (new config thresholds).after inputs
    let live := fun id => c.router.channels.contains id=true
    (∀ id,live id ↔ ((new config thresholds).turns id inputs).getLast?=some true) ∧
    (∀ stamp command error,
      c.dispatch stamp (.lifecycle (.commandAdded command))=.error error ↔
        error=.duplicateCommand command.id ∧ live command.id) ∧
    (∀ stamp command,((c.router.remove stamp command).1=true ↔ live command.id) ∧
      ((c.step (.event stamp (.lifecycle (.commandRemoved command)))).console≠c ↔
        live command.id)) ∧
    (∀ message,(c.ingest message).1=.unknownCommand ↔ ¬live message.command) ∧
    (∀ stamp lines error,c.dispatch stamp (.setMaxLines lines)=.error error ↔
      error=.invalidConfig .noRetainedLines ∧ lines=0) ∧
    ∀ later,(c.heeded later).Sublist later ∧ c.run (c.heeded later)=c.run later := by
  intro c live
  refine ⟨?_,c.dispatch_add_error_iff,?_,?_,c.dispatch_setMaxLines_error_iff,
    fun later => ⟨c.heeded_sublist later,c.run_heeded later⟩⟩
  · intro id
    change c.router.channels.contains id=true ↔ _
    rw [contains_after]
    cases ((new config thresholds).turns id inputs).getLast? with
    | none => exact ⟨nofun,nofun⟩
    | some last => cases last <;> simp
  · intro stamp command
    rw [Router.found_remove]
    exact ⟨Iff.rfl,c.remove_effective_iff stamp command⟩
  · intro message
    rw [Bool.not_eq_true]
    exact Router.ingest_unknown_iff c.router message

/-- Of these events the first and the shutdown are heeded. -/
example : (new .standard .standard).heeded
    [.event .masked (.lifecycle (.commandAdded Router.camera)),
      .event .masked (.lifecycle (.commandAdded Router.camera)),.event .masked (.setMaxLines 0),
      .event .masked (.output ⟨Router.camera.id,""⟩),.event .masked (.output ⟨Router.radar.id,"on"⟩),
      .event .masked (.lifecycle (.commandRemoved Router.radar)),.event .masked .shutdown,
      .event .masked .clearGlobal]=
    [.event .masked (.lifecycle (.commandAdded Router.camera)),.event .masked .shutdown] := by
  decide +kernel

end Console

end FleetConsole
