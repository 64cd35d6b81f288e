import FleetConsole.Proofs.Console.Rows
import FleetConsole.Proofs.Json.OneLine

namespace FleetConsole

namespace Signal

section

variable {signal : Signal} {ts : String} {members : List (String × Json)}
  (ascending : (members.map Prod.fst).Pairwise (fun a b => compare a b=.lt))
  (same : ∀ m,m∈envelope ts signal.event++signal.body ↔ m∈members)
include ascending same

/-- Members of an envelope and a body that go by different names are all there, in the order of
their names. -/
theorem toJson_eq : signal.toJson ts=.obj members := by
  -- The merge need not be evaluated: there is only one map with these entries.
  let merged : SortedMap String Json := ⟨members,List.pairwise_map.mp ascending⟩
  have joined : SortedMap.ofList (envelope ts signal.event++signal.body)=merged :=
    SortedMap.ofList_eq same
  rw [toJson,joined]

theorem isLine_line (hf : (Json.obj members).fits Json.maxDepth=true)
    (hw : (Json.obj members).isWhole=true) : Json.IsLine members (signal.line ts) := by
  rw [line,toJson_eq ascending same]
  exact Json.isLine_write hf hw

end

theorem isLine_dropped {report : DropReport} (h : report.droppedBytes<UInt64.size) (ts : String) :
    Json.IsLine
      [("command_id",.str report.command.command),("deputy",.str report.command.deputy),
       ("dropped_bytes",.int report.droppedBytes),("event",.str "drop_report"),("ts",.str ts)]
      ((dropped report).line ts) := by
  have ascending : ["command_id","deputy","dropped_bytes","event","ts"].Pairwise
      (fun a b => compare a b=.lt) := by decide
  refine isLine_line ascending ?_ rfl ?_
  · intro m
    simp only [envelope,event,body,List.mem_append,List.mem_cons,List.not_mem_nil]
    tauto
  · simp [Json.isWhole,Json.membersWhole_iff,Json.isWholeRange_natCast h]

example : (dropped ⟨⟨"d\n","c"⟩,3⟩).line "now"=
    ("\x7b\"command_id\":\"c\",\"deputy\":\"d\\n\",\"dropped_bytes\":3,\"event\":\"drop_report\"," ++
      "\"ts\":\"now\"\x7d\n").toList := by decide +kernel

theorem isLine_pruned (names : List String) (ts : String) :
    Json.IsLine [("deputies",.arr (names.map .str)),("event",.str "deputies_pruned"),("ts",.str ts)]
      ((pruned names).line ts) := by
  have ascending : ["deputies","event","ts"].Pairwise (fun a b => compare a b=.lt) := by decide
  refine isLine_line ascending ?_ ?_ ?_
  · intro m
    simp only [envelope,event,body,List.mem_append,List.mem_cons,List.not_mem_nil]
    tauto
  · simp [Json.fits,Json.maxDepth,Json.membersFit_iff,Json.itemsFit_iff]
  · simp [Json.isWhole,Json.membersWhole_iff,Json.itemsWhole_iff]

end Signal

namespace Emitter

/-- Signals are emitted one by one, each with the time that the clock shows then. -/
def emitInTurn (e : Emitter) (clock : Nat → String) (signals : List Signal) : List (List Char) :=
  signals.zipIdx.flatMap (fun m => e.emit (clock m.2) [m.1])

theorem emitInTurn_of_enabled (clock : Nat → String) (signals : List Signal) :
    emitInTurn ⟨true⟩ clock signals=signals.zipIdx.map (fun m => m.1.line (clock m.2)) :=
  List.map_eq_flatMap.symm

/-- While the clock stands still, signals may as well be emitted together. -/
theorem emitInTurn_const (e : Emitter) (ts : String) (signals : List Signal) :
    e.emitInTurn (fun _ => ts) signals=e.emit ts signals := by
  obtain ⟨_ | _⟩ := e
  · exact List.flatMap_eq_nil_iff.mpr (fun _ _ => rfl)
  · have each : signals.zipIdx.map (Signal.line ts ∘ Prod.fst)=signals.map (Signal.line ts) := by
      rw [← List.map_map,List.zipIdx_map_fst]
    exact (emitInTurn_of_enabled _ signals).trans each

theorem getElem?_emitInTurn (clock : Nat → String) (signals : List Signal) (n : Nat) :
    (emitInTurn ⟨true⟩ clock signals)[n]?=(signals[n]?).map (Signal.line (clock n)) := by
  rw [emitInTurn_of_enabled,List.getElem?_map,List.getElem?_zipIdx,Option.map_map,Nat.zero_add]
  rfl

theorem length_emitInTurn (clock : Nat → String) (signals : List Signal) :
    (emitInTurn ⟨true⟩ clock signals).length=signals.length := by
  rw [emitInTurn_of_enabled,List.length_map,List.length_zipIdx]

end Emitter

namespace Console

/-- Each report has a line, in the order of the reports. -/
theorem lines_of_upkeep (c : Console) (stamp : Stamp) (clock : Nat → String) :
    let reports := (c.upkeep stamp).1
    let texts := Emitter.emitInTurn ⟨true⟩ clock (c.step (.upkeep stamp)).signals
    texts.length=reports.length ∧
    ∀ n report,reports[n]?=some report → texts[n]?=some ((Signal.dropped report).line (clock n)) := by
  intro reports texts
  have signals : (c.step (.upkeep stamp)).signals=reports.map .dropped := rfl
  constructor
  · rw [Emitter.length_emitInTurn,signals,List.length_map]
  · intro n report found
    rw [Emitter.getElem?_emitInTurn,signals,List.getElem?_map,found]
    rfl

/-- Pruned is who is known before a cleanup and not after it. -/
theorem mem_cleanupDeputies {c : Console} {name : String} :
    name∈c.cleanupDeputies.1 ↔ c.monitor.contains name=true ∧
      c.cleanupDeputies.2.monitor.contains name=false := by
  have after : c.cleanupDeputies.2.monitor.contains name=
      if name∈c.cleanupDeputies.1 then false else c.monitor.contains name := by
    change (c.monitor.cleanup.2.deputies.get? name).isSome=_
    rw [Monitor.get?_cleanup,apply_ite Option.isSome]
    rfl
  have known (pruned : name∈c.cleanupDeputies.1) : c.monitor.contains name=true :=
    Monitor.contains_of_marks (Monitor.mem_cleanup.mp pruned)
  rw [after]
  constructor
  · intro pruned
    rw [if_pos pruned]
    exact ⟨known pruned,rfl⟩
  · rintro ⟨before,gone⟩
    by_contra kept
    rw [if_neg kept,before] at gone
    cases gone

theorem lines_of_cleanup (names : List String) (clock : Nat → String) :
    Emitter.emitInTurn ⟨true⟩ clock (cleanupSignals names)=
      if names=[] then [] else [(Signal.pruned names).line (clock 0)] := by
  rw [Emitter.emitInTurn_of_enabled,cleanupSignals]
  by_cases none : names=[]
  · rw [if_pos none,if_pos (List.isEmpty_iff.mpr none)]
    rfl
  · rw [if_neg none,if_neg (by simpa using none)]
    rfl

/-- Each report and each cleanup that prunes somebody is a line of its own, with nothing on it but
the time, the event and what was told, whatever characters there are in the names. -/
theorem signals_are_lines (config : RouterConfig) (thresholds : Thresholds) (inputs : List Input)
    (stamp : Stamp) (clock : Nat → String) :
    let c := (new config thresholds).after inputs
    let texts := fun d : Dispatched => Emitter.emitInTurn ⟨true⟩ clock d.signals
    let reports := (c.upkeep stamp).1
    let names := c.cleanupDeputies.1
    ((texts (c.step (.upkeep stamp))).length=reports.length ∧
      ∀ n report,reports[n]?=some report → report.droppedBytes<UInt64.size →
        ∃ text,(texts (c.step (.upkeep stamp)))[n]?=some text ∧
          Json.IsLine
            [("command_id",.str report.command.command),("deputy",.str report.command.deputy),
             ("dropped_bytes",.int report.droppedBytes),("event",.str "drop_report"),
             ("ts",.str (clock n))] text) ∧
    ∃ d,c.dispatch stamp .cleanupDeputies=.ok d ∧
      let pruned := fun name =>
        c.monitor.contains name=true ∧ d.console.monitor.contains name=false
      names.Pairwise (·<·) ∧ (∀ name,name∈names ↔ pruned name) ∧
      (texts d).length ≤ 1 ∧ ((texts d).length=1 ↔ ∃ name,pruned name) ∧
      ∀ text∈texts d,
        Json.IsLine
          [("deputies",.arr (names.map .str)),("event",.str "deputies_pruned"),
           ("ts",.str (clock 0))] text := by
  intro c texts reports names
  obtain ⟨many,each⟩ := lines_of_upkeep c stamp clock
  let d : Dispatched := ⟨.proceed,cleanupSignals names,c.cleanupDeputies.2⟩
  have told : texts d=if names=[] then [] else [(Signal.pruned names).line (clock 0)] :=
    lines_of_cleanup names clock
  have pruned (name : String) : name∈names ↔
      c.monitor.contains name=true ∧ d.console.monitor.contains name=false := mem_cleanupDeputies
  refine ⟨⟨many,?_⟩,d,rfl,Monitor.keys_ascending _,pruned,?_⟩
  · intro n report found counted
    exact ⟨_,each n report found,Signal.isLine_dropped counted (clock n)⟩
  · simp only [← pruned,told]
    by_cases none : names=[]
    · simp [none]
    · simp [none,List.exists_mem_of_ne_nil names none,Signal.isLine_pruned]

/-- A command in whose name every kind of character occurs that is not written as it is. -/
def oddCommand : CommandInfo := ⟨⟨"de\"ck\n","c\\am\x00é"⟩,"run",.running⟩

/-- Three bytes of it are dropped, and a deputy is heard of that is not live. -/
def oddInputs : List Input :=
  [.event .masked (.lifecycle (.commandAdded oddCommand)),
    .event .masked (.output ⟨oddCommand.id,"abcdef\n"⟩),
    .event .masked (.heartbeat ⟨"\n\t\"",⟨0x3fe0000000000000⟩,⟨0,0⟩⟩),
    .reconcile [oddCommand.id.deputy] ⟨7,0⟩]

theorem signals_of_odd_names :
    let c := (new (.ofQuota 4 9) .standard).after oddInputs
    (c.upkeep .masked).1[0]?=some ⟨oddCommand.id,3⟩ ∧ 3<UInt64.size ∧
    (∃ text,(Emitter.emitInTurn ⟨true⟩ (fun _ => "now") (c.step (.upkeep .masked)).signals)[0]?=
        some text ∧
      Json.IsLine
        [("command_id",.str "c\\am\x00é"),("deputy",.str "de\"ck\n"),("dropped_bytes",.int 3),
         ("event",.str "drop_report"),("ts",.str "now")] text) ∧
    c.cleanupDeputies.1=["\n\t\""] ∧
    ∃ d,c.dispatch .masked .cleanupDeputies=.ok d ∧
      (Emitter.emitInTurn ⟨true⟩ (fun _ => "now") d.signals).length=1 := by
  intro c
  have report : (c.upkeep .masked).1[0]?=some ⟨oddCommand.id,3⟩ := by decide +kernel
  have counted : 3<UInt64.size := by decide
  have pruned : c.cleanupDeputies.1=["\n\t\""] := by decide +kernel
  obtain ⟨⟨_,dropped⟩,d,cleaned,_,names,_,told,_⟩ :=
    signals_are_lines (.ofQuota 4 9) .standard oddInputs .masked (fun _ => "now")
  have somebody : "\n\t\""∈c.cleanupDeputies.1 := pruned ▸ List.mem_singleton_self _
  exact ⟨report,counted,dropped 0 _ report counted,pruned,d,cleaned,
    told.mpr ⟨_,(names _).mp somebody⟩⟩

end Console

end FleetConsole
