import FleetConsole.Deputy.Monitor
import FleetConsole.SortedMap.Lookup

namespace FleetConsole.Monitor

/-- Whether a deputy is marked for removal. -/
def marks (m : Monitor) (name : String) : Bool :=
  (m.deputies.get? name).any Deputy.pendingRemoval

theorem get?_track (deputies : SortedMap String Deputy) (name name' : String) :
    (track deputies name).get? name'=
      if name=name' then some ((deputies.get? name').getD Deputy.unseen)
      else deputies.get? name' := by
  unfold track SortedMap.contains
  by_cases e : name=name'
  · subst e
    cases h : deputies.get? name with
    | none => simp [SortedMap.get?_insert]
    | some d => simp [h]
  · cases h : deputies.get? name with
    | none => simp [SortedMap.get?_insert,e]
    | some d => simp [e]

theorem get?_foldl_track (live : List String) (deputies : SortedMap String Deputy) (name : String) :
    (live.foldl track deputies).get? name=
      if name∈live then some ((deputies.get? name).getD Deputy.unseen) else deputies.get? name := by
  induction live generalizing deputies with
  | nil => simp
  | cons first rest ih =>
    rw [List.foldl_cons,ih,get?_track]
    by_cases e : first=name
    · simp [e]
    · simp [e,Ne.symm e]

/-- A reconciliation tracks all who are live and marks exactly the others. -/
theorem get?_reconcile (m : Monitor) (live : List String) (name : String) :
    (m.reconcile live).deputies.get? name=
      if name∈live then
        some { (m.deputies.get? name).getD Deputy.unseen with pendingRemoval := false }
      else (m.deputies.get? name).map (fun d => { d with pendingRemoval := true }) := by
  unfold reconcile
  simp only
  rw [SortedMap.get?_mapValues,get?_foldl_track]
  by_cases h : name∈live <;> simp [h]

end FleetConsole.Monitor
