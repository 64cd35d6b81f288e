import FleetConsole.Event.Reader
import FleetConsole.Event.Writer
import FleetConsole.Proofs.Json.Tagged
import FleetConsole.Proofs.Time.Timestamp

namespace FleetConsole

theorem CommandId.ofJson?_toJson (id : CommandId) : ofJson? id.toJson=some id := rfl

theorem CommandStatus.ofJson?_toJson (status : CommandStatus) :
    ofJson? status.toJson=some status := congrArg some (ofName_name status)

theorem CommandInfo.ofJson?_toJson (command : CommandInfo) :
    ofJson? command.toJson=some command := by
  obtain ⟨id,exec,status⟩ := command
  show (CommandStatus.ofJson? status.toJson).bind (fun status => some (mk id exec status))=_
  rw [CommandStatus.ofJson?_toJson]
  rfl

theorem LifecycleEvent.ofJson?_members (event : LifecycleEvent) :
    ofJson? (.obj event.members)=some event := by
  cases event with
  | commandAdded command =>
    show (CommandInfo.ofJson? command.toJson).map commandAdded=_
    rw [CommandInfo.ofJson?_toJson]
    rfl
  | commandRemoved command =>
    show (CommandInfo.ofJson? command.toJson).map commandRemoved=_
    rw [CommandInfo.ofJson?_toJson]
    rfl
  | statusChanged id oldStatus newStatus =>
    show (CommandStatus.ofJson? oldStatus.toJson).bind (fun oldStatus =>
      (CommandStatus.ofJson? newStatus.toJson).bind (fun newStatus =>
        some (statusChanged id oldStatus newStatus)))=_
    rw [CommandStatus.ofJson?_toJson,CommandStatus.ofJson?_toJson]
    rfl

namespace Event

/-- The same event, with another load if it is a heartbeat. -/
def withLoad (load : Binary64) : Event → Event
  | .heartbeat beat => .heartbeat { beat with load := load }
  | e => e

/-- Whether a heartbeat has a load and a moment that can be read from a text. -/
def Writable : Event → Prop
  | .heartbeat beat => beat.load.isFinite=true ∧ beat.moment.Proper
  | _ => True

/-- What is read of an event's members is the event. -/
theorem content_of_writable {e : Event} (h : e.Writable) :
    ∃ tag fields content load,e.members=("type",.str tag) :: fields ∧
      types.contains tag=true ∧ Json.Content "type" .none 1 fields content ∧
      ofTagged? ⟨tag,.obj content⟩=some (e.withLoad load) := by
  cases e with
  | output message => exact ⟨_,_,_,⟨0⟩,rfl,by decide,Json.content_self rfl,rfl⟩
  | heartbeat beat =>
    obtain ⟨finite,proper⟩ := h
    obtain ⟨load,read⟩ := Json.readsAs_float finite .none (Json.maxDepth-1) 1
    have named : "cpu_load"≠"type" := by decide
    refine ⟨_,_,_,load,rfl,by decide,.cons (Json.memberReadsAs_self rfl)
      (.cons (b := ("cpu_load",.float load)) ⟨named,rfl,read⟩
        (.cons (Json.memberReadsAs_self rfl) .nil)),?_⟩
    have moment := Timestamp.read?_write proper
    rw [← String.toList_ofList (l := Timestamp.write beat.moment)] at moment
    -- What the timestamp looks like does not matter for the record around it.
    generalize String.ofList (Timestamp.write beat.moment)=written at moment
    show (Timestamp.read? written.toList).bind
      (fun moment => some (heartbeat ⟨beat.deputy,load,moment⟩))=_
    rw [moment]
    rfl
  | lifecycle event =>
    refine ⟨_,_,_,⟨0⟩,rfl,by decide,Json.content_self ?_,?_⟩
    · cases event <;> rfl
    · show (LifecycleEvent.ofJson? (.obj event.members)).map lifecycle=_
      rw [LifecycleEvent.ofJson?_members]
      rfl
  | setRateLimit limit =>
    have small : UInt32.size<Json.significandBound := by decide
    refine ⟨_,_,_,⟨0⟩,rfl,by decide,Json.content_self ?_,?_⟩
    · rw [List.all_cons,Json.isPlainMember_natCast (by decide)
        (Nat.lt_trans limit.kbPerSec.toNat_lt small)]
      rfl
    · show (Json.int limit.kbPerSec.toNat).uint32?.map (fun kb => setRateLimit ⟨kb⟩)=_
      rw [Json.uint32?_toNat]
      rfl
  | setMaxLines lines =>
    refine ⟨_,_,_,⟨0⟩,rfl,by decide,Json.content_self ?_,?_⟩
    · rw [List.all_cons,Json.isPlainMember_natCast (by decide) lines.toNat_lt]
      rfl
    · show (Json.int lines.toNat).uint64?.map setMaxLines=_
      rw [Json.uint64?_toNat]
      rfl
  | clearGlobal => exact ⟨_,[],[],⟨0⟩,rfl,by decide,.nil,rfl⟩
  | cleanupDeputies => exact ⟨_,[],[],⟨0⟩,rfl,by decide,.nil,rfl⟩
  | shutdown => exact ⟨_,[],[],⟨0⟩,rfl,by decide,.nil,rfl⟩

theorem read_write {e : Event} (h : e.Writable) :
    ∃ load,read e.write=.ok (e.withLoad load) := by
  obtain ⟨tag,fields,content,load,members,known,h,decoded⟩ := content_of_writable h
  refine ⟨load,?_⟩
  rw [write,toJson,members]
  exact Json.readByTag_compact known h decoded

/-- A heartbeat's load is a number that was read, and its moment a timestamp that was. -/
theorem writable_of_ofTagged? {tagged : Json.Tagged} {e : Event}
    (bounded : ∀ v∈tagged.content.held,v.isBounded=true) (h : ofTagged? tagged=some e) :
    e.Writable := by
  cases e with
  | heartbeat beat =>
    have bare {e : Event} (h : bare? e tagged.content=some (.heartbeat beat)) :
        e=.heartbeat beat := by
      unfold bare? at h
      split_ifs at h
      exact Option.some.inj h
    unfold ofTagged? at h
    split_ifs at h with output heartbeat sheriff rate lines clear cleanup shutdown
    · split at h
      next =>
        simp only [Option.bind_eq_bind,Option.bind_eq_some_iff] at h
        obtain ⟨_,_,_,_,e⟩ := h
        cases e
      next => cases h
    · split at h
      next deputy load moment fields =>
        simp only [Option.bind_eq_bind,Option.bind_eq_some_iff] at h
        obtain ⟨_,_,x,hx,_,_,t,ht,e⟩ := h
        cases e
        have held : load∈tagged.content.held := Json.mem_held_of_record? fields load (by simp)
        exact ⟨Json.isFinite_of_float? (bounded load held) hx,Timestamp.proper_of_read? ht⟩
      next => cases h
    · obtain ⟨_,_,e⟩ := Option.map_eq_some_iff.mp h
      cases e
    · split at h
      next =>
        obtain ⟨_,_,e⟩ := Option.map_eq_some_iff.mp h
        cases e
      next => cases h
    · split at h
      next =>
        obtain ⟨_,_,e⟩ := Option.map_eq_some_iff.mp h
        cases e
      next => cases h
    · cases bare h
    · cases bare h
    · cases bare h
  | _ => trivial

theorem writable_of_read {text : List Char} {e : Event} (h : read text=.ok e) : e.Writable := by
  obtain ⟨tagged,rest,read,decoded⟩ := Json.readByTag_ok h
  exact writable_of_ofTagged? (Json.isBounded_of_readTagged read) decoded

/-- The text of an event that timestamps and finite numbers can tell is read as the event, and
so is the text that is written of any event that was read. -/
theorem events_survive_writing :
    (∀ e : Event,e.Writable → ∃ load,read e.write=.ok (e.withLoad load)) ∧
      ∀ text e,read text=.ok e → ∃ load,read e.write=.ok (e.withLoad load) := by
  constructor
  · intro e h
    exact read_write h
  · intro text e h
    exact read_write (writable_of_read h)

/-- A heartbeat in a leap second from a deputy whose name has to be escaped, and a change of
status as a list, with a kind and statuses that are written in other ways. -/
theorem events_survive_writing_once :
    let beat : Event := .heartbeat
      ⟨"de\"pu\\ty\u0001é",⟨0x3fe8000000000000⟩,⟨1483228799,1500000000⟩⟩
    let text := "[\"sheriff\",2,[\"d\",\"c\"],\"paused\",\x7b\"running\":null\x7d]".toList
    let change : Event := .lifecycle (.statusChanged ⟨"d","c"⟩ .unknown .running)
    beat.Writable ∧ (∃ load,read beat.write=.ok (beat.withLoad load)) ∧
      read text=.ok change ∧ ∃ load,read change.write=.ok (change.withLoad load) := by
  refine ⟨?writable,events_survive_writing.1 _ ?writable,?told,
    events_survive_writing.2 _ _ ?told⟩
  case writable => exact ⟨by decide,by decide,by decide,fun _ => by decide⟩
  case told => decide +kernel

end Event

end FleetConsole
