import FleetConsole.Fleet.Observed
import FleetConsole.SortedMap.Lookup

namespace FleetConsole.ObservedFleet

/-- How many commands the fleet takes a deputy to have. -/
def count (f : ObservedFleet) (deputy : String) : Nat := (f.sighting deputy).commands

theorem sighting_put (f : ObservedFleet) (deputy deputy' : String) (s : Sighting) :
    (f.put deputy s).sighting deputy'=if deputy=deputy' then s else f.sighting deputy' := by
  unfold sighting put
  simp only
  rw [SortedMap.get?_insert]
  split <;> rfl

theorem count_add (f : ObservedFleet) (now : Nat) (command : CommandInfo) (deputy : String) :
    (f.observe now (.lifecycle (.commandAdded command))).count deputy=
      f.count deputy+if command.id.deputy=deputy then 1 else 0 := by
  rw [observe,count,sighting_put]
  by_cases h : command.id.deputy=deputy
  · subst h
    simp [count]
  · simp [count,h]

theorem count_remove (f : ObservedFleet) (now : Nat) (command : CommandInfo) (deputy : String) :
    (f.observe now (.lifecycle (.commandRemoved command))).count deputy=
      f.count deputy-if command.id.deputy=deputy then 1 else 0 := by
  rw [observe]
  cases hc : f.sightings.contains command.id.deputy with
  | true =>
    rw [if_pos rfl,count,sighting_put]
    by_cases h : command.id.deputy=deputy
    · subst h
      simp [count]
    · simp [count,h]
  | false =>
    rw [if_neg Bool.false_ne_true]
    by_cases h : command.id.deputy=deputy
    · subst h
      have hn : f.sightings.get? command.id.deputy=none := by
        rw [← Option.isNone_iff_eq_none,← Option.not_isSome]
        simpa [SortedMap.contains] using hc
      simp [count,sighting,hn]
    · simp [h]

theorem count_heartbeat (f : ObservedFleet) (now : Nat) (beat : Heartbeat) (deputy : String) :
    (f.observe now (.heartbeat beat)).count deputy=f.count deputy := by
  rw [observe,count,sighting_put]
  split
  next h => rw [← h]; rfl
  next => rfl

theorem isLive_unseen (forgetAfter now : Nat) : isLive forgetAfter now ⟨0,none⟩=false := rfl

/-- A deputy that was never seen is a deputy without commands that was never heard. -/
theorem mem_liveDeputies {f : ObservedFleet} {now : Nat} {deputy : String} :
    deputy∈(f.liveDeputies now).1 ↔ isLive f.forgetAfter now (f.sighting deputy)=true := by
  rw [liveDeputies,← SortedMap.contains_iff_mem_keys,SortedMap.contains,SortedMap.get?_filter,
    sighting]
  cases f.sightings.get? deputy with
  | none => simp [isLive_unseen]
  | some s => cases h : isLive f.forgetAfter now s <;> simp [Option.filter,h]

theorem sighting_liveDeputies (f : ObservedFleet) (now : Nat) (deputy : String) :
    (f.liveDeputies now).2.sighting deputy=
      if isLive f.forgetAfter now (f.sighting deputy) then f.sighting deputy else ⟨0,none⟩ := by
  have kept (o : Option Sighting) : (o.filter (isLive f.forgetAfter now)).getD ⟨0,none⟩=
      if isLive f.forgetAfter now (o.getD ⟨0,none⟩) then o.getD ⟨0,none⟩ else ⟨0,none⟩ := by
    cases o with
    | none => simp [isLive_unseen]
    | some s => cases h : isLive f.forgetAfter now s <;> simp [Option.filter,h]
  have hk := kept (f.sightings.get? deputy)
  rw [← SortedMap.get?_filter (fun _ s => isLive f.forgetAfter now s)] at hk
  exact hk

/-- Who is forgotten had no commands. -/
theorem count_liveDeputies (f : ObservedFleet) (now : Nat) (deputy : String) :
    (f.liveDeputies now).2.count deputy=f.count deputy := by
  rw [count,sighting_liveDeputies,count]
  split
  next => rfl
  next h =>
    simp only [isLive,Bool.or_eq_true,decide_eq_true_eq,not_or] at h
    show 0=(f.sighting deputy).commands
    omega

theorem mem_liveDeputies_of_count {f : ObservedFleet} {deputy : String} (h : 0<f.count deputy)
    (now : Nat) : deputy∈(f.liveDeputies now).1 := by
  have hd : decide (0<(f.sighting deputy).commands)=true := decide_eq_true h
  rw [mem_liveDeputies,isLive,hd,Bool.true_or]

/-- What the fleet remembers to have heard of a deputy it heard just now, or remembered before. -/
theorem heard_observe {f : ObservedFleet} {now : Nat} {event : Event} {deputy : String} {t : Nat}
    (h : ((f.observe now event).sighting deputy).lastHeard=some t) :
    (∃ beat,event=.heartbeat beat ∧ beat.deputy=deputy ∧ now=t) ∨
      (f.sighting deputy).lastHeard=some t := by
  cases event with
  | heartbeat beat =>
    rw [observe,sighting_put] at h
    split at h
    next e => exact .inl ⟨beat,rfl,e,Option.some.inj h⟩
    next => exact .inr h
  | lifecycle event =>
    right
    cases event with
    | commandAdded command =>
      rw [observe,sighting_put] at h
      split at h
      next e => exact e ▸ h
      next => exact h
    | commandRemoved command =>
      rw [observe] at h
      split at h
      · rw [sighting_put] at h
        split at h
        next e => exact e ▸ h
        next => exact h
      · exact h
    | statusChanged id oldStatus newStatus => exact h
  | _ => exact .inr h

theorem forgetAfter_observe (f : ObservedFleet) (now : Nat) (event : Event) :
    (f.observe now event).forgetAfter=f.forgetAfter := by
  cases event with
  | lifecycle event =>
    cases event with
    | commandRemoved command => rw [observe]; split <;> rfl
    | _ => rfl
  | _ => rfl

theorem heard_liveDeputies {f : ObservedFleet} {now : Nat} {deputy : String} {t : Nat}
    (h : ((f.liveDeputies now).2.sighting deputy).lastHeard=some t) :
    (f.sighting deputy).lastHeard=some t := by
  rw [sighting_liveDeputies] at h
  split at h
  · exact h
  · cases h

end FleetConsole.ObservedFleet
