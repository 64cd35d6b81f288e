import FleetConsole.Proofs.Console.Step
import FleetConsole.Proofs.Deputy.History
import Mathlib.Data.List.Sort

namespace FleetConsole

namespace Monitor

/-- A heartbeat of a deputy that is not known yet leaves it unmarked. -/
theorem marks_heartbeat (m : Monitor) (beat : Heartbeat) (name : String) :
    (m.heartbeat beat).marks name=m.marks name := by
  rw [marks,marks,heartbeat,SortedMap.get?_insert]
  by_cases own : beat.deputy=name
  · subst own
    rw [if_pos rfl]
    cases m.deputies.get? beat.deputy <;> rfl
  · rw [if_neg own]

theorem contains_heartbeat {m : Monitor} {name : String} (h : m.contains name=true)
    (beat : Heartbeat) : (m.heartbeat beat).contains name=true := by
  rw [contains_eq_isSome] at h ⊢
  rw [heartbeat,SortedMap.get?_insert]
  split
  · rfl
  · exact h

theorem contains_of_marks {m : Monitor} {name : String} (h : m.marks name=true) :
    m.contains name=true := by
  rw [marks] at h
  rw [contains_eq_isSome]
  cases hd : m.deputies.get? name with
  | none =>
    rw [hd] at h
    cases h
  | some d => rfl

theorem names_rows (m : Monitor) (now : Instant) :
    (m.rows now).map DeputyRow.name=m.deputies.keys := by
  rw [rows,List.map_map]
  rfl

/-- A cleanup leaves no marks. -/
theorem marks_cleanup (m : Monitor) (name : String) : m.cleanup.2.marks name=false := by
  rw [marks,get?_cleanup]
  split
  · rfl
  next kept =>
    rw [mem_cleanup,Bool.not_eq_true] at kept
    exact kept

end Monitor

namespace Console

/-- The rows name tracked deputies in order, all of the marked ones among them, and tell for each
whether it is marked. -/
structure RowsAgree (c : Console) : Prop where
  ascending : (c.lastRows.map DeputyRow.name).Pairwise (·<·)
  tracked : ∀ row∈c.lastRows,c.monitor.contains row.name=true
  marks : ∀ row∈c.lastRows,row.pendingRemoval=c.monitor.marks row.name
  shown : ∀ name,c.monitor.marks name=true → ∃ row∈c.lastRows,row.name=name

theorem rowsAgree_new (config : RouterConfig) (thresholds : Thresholds) :
    (new config thresholds).RowsAgree := ⟨.nil,nofun,nofun,nofun⟩

/-- A heartbeat can make the monitor track a deputy without a row, but never mark one. -/
theorem rowsAgree_heartbeat {c : Console} (h : c.RowsAgree) (beat : Heartbeat) :
    RowsAgree { c with monitor := c.monitor.heartbeat beat } where
  ascending := h.ascending
  tracked row hr := Monitor.contains_heartbeat (h.tracked row hr) beat
  marks row hr := (h.marks row hr).trans (Monitor.marks_heartbeat c.monitor beat row.name).symm
  shown name hm := h.shown name ((Monitor.marks_heartbeat c.monitor beat name).symm.trans hm)

/-- Rows that are new come from the monitor as it is. -/
theorem rowsAgree_reconcile (c : Console) (live : List String) (now : Instant) :
    (c.reconcile live now).2.RowsAgree where
  ascending := by
    change (((c.monitor.reconcile live).rows now).map DeputyRow.name).Pairwise (·<·)
    rw [Monitor.names_rows]
    exact Monitor.keys_ascending _
  tracked row hr := by
    obtain ⟨d,hd,_⟩ := Monitor.mem_rows.mp hr
    rw [Monitor.contains_eq_isSome]
    exact Option.isSome_of_eq_some hd
  marks row hr := by
    obtain ⟨d,hd,he⟩ := Monitor.mem_rows.mp hr
    change _=((c.monitor.reconcile live).deputies.get? row.name).any Deputy.pendingRemoval
    rw [hd,he]
    rfl
  shown name hm := by
    obtain ⟨d,hd⟩ := Option.isSome_iff_exists.mp (Monitor.contains_of_marks hm)
    let row := DeputyRow.of (c.monitor.reconcile live).thresholds now name d
    have hr : row∈(c.monitor.reconcile live).rows now := Monitor.mem_rows.mpr ⟨d,hd,rfl⟩
    exact ⟨row,hr,rfl⟩

/-- A cleanup takes a row away exactly if it is pending. -/
theorem lastRows_cleanup {c : Console} (h : c.RowsAgree) :
    c.cleanupDeputies.2.lastRows=c.lastRows.filter (fun row => !row.pendingRemoval) := by
  refine List.filter_congr fun row hr => ?_
  rw [h.marks row hr,Bool.not_inj_iff,Bool.eq_iff_iff,List.contains_iff_mem]
  exact Monitor.mem_cleanup

theorem rowsAgree_cleanup {c : Console} (h : c.RowsAgree) : c.cleanupDeputies.2.RowsAgree where
  ascending := by
    rw [lastRows_cleanup h]
    exact h.ascending.sublist (List.filter_sublist.map _)
  tracked row hr := by
    rw [lastRows_cleanup h,List.mem_filter,Bool.not_eq_true'] at hr
    obtain ⟨old,kept⟩ := hr
    have present := h.tracked row old
    rw [h.marks row old,← Bool.not_eq_true,← Monitor.mem_cleanup] at kept
    rw [Monitor.contains_eq_isSome] at present ⊢
    change (c.monitor.cleanup.2.deputies.get? row.name).isSome=true
    rw [Monitor.get?_cleanup,if_neg kept]
    exact present
  marks row hr := by
    rw [lastRows_cleanup h,List.mem_filter,Bool.not_eq_true'] at hr
    rw [hr.2]
    exact (Monitor.marks_cleanup c.monitor row.name).symm
  shown name hm := by
    rw [show c.cleanupDeputies.2.monitor.marks name=false from Monitor.marks_cleanup _ _] at hm
    cases hm

/-- Only heartbeats, reconciliations and cleanups concern the deputies. -/
theorem rowsAgree_step {c : Console} (h : c.RowsAgree) (input : Input) :
    (c.step input).console.RowsAgree := by
  cases input with
  | upkeep stamp => exact ⟨h.ascending,h.tracked,h.marks,h.shown⟩
  | reconcile live now => exact rowsAgree_reconcile c live now
  | event stamp event =>
    cases hop : event.routerOp stamp with
    | some op =>
      rw [step_of_routerOp hop]
      exact ⟨h.ascending,h.tracked,h.marks,h.shown⟩
    | none =>
      cases event with
      | heartbeat beat => exact rowsAgree_heartbeat h beat
      | cleanupDeputies => exact rowsAgree_cleanup h
      | shutdown => exact h
      | _ => cases hop

theorem rowsAgree_after (config : RouterConfig) (thresholds : Thresholds) (inputs : List Input) :
    ((new config thresholds).after inputs).RowsAgree :=
  after_induction (rowsAgree_new config thresholds) (fun _ input h => rowsAgree_step h input) inputs

theorem cleanup_eq_pending {c : Console} (h : c.RowsAgree) :
    c.cleanupDeputies.1=(c.lastRows.filter DeputyRow.pendingRemoval).map DeputyRow.name := by
  have names : c.cleanupDeputies.1.Pairwise (·<·) := Monitor.keys_ascending _
  have rows := h.ascending.sublist ((List.filter_sublist (p := DeputyRow.pendingRemoval)).map _)
  refine names.eq_of_mem_iff rows fun name => ?_
  change name∈c.monitor.cleanup.1 ↔ _
  rw [Monitor.mem_cleanup,List.mem_map]
  constructor
  · intro marked
    obtain ⟨row,hr,rfl⟩ := h.shown name marked
    exact ⟨row,List.mem_filter.mpr ⟨hr,(h.marks row hr).trans marked⟩,rfl⟩
  · rintro ⟨row,hr,rfl⟩
    obtain ⟨old,pending⟩ := List.mem_filter.mp hr
    exact (h.marks row old).symm.trans pending

/-- After any inputs the rows agree with the monitor on who is tracked and who is marked, so that a
cleanup prunes exactly the deputies whose rows are pending. -/
theorem rows_follow_monitor (config : RouterConfig) (thresholds : Thresholds)
    (inputs : List Input) :
    let c := (new config thresholds).after inputs
    (c.lastRows.map DeputyRow.name).Pairwise (·<·) ∧
    (∀ row∈c.lastRows,c.monitor.contains row.name=true ∧
      row.pendingRemoval=c.monitor.marks row.name) ∧
    (∀ name,c.monitor.marks name=true → ∃ row∈c.lastRows,row.name=name) ∧
    c.cleanupDeputies.1=(c.lastRows.filter DeputyRow.pendingRemoval).map DeputyRow.name ∧
    (∀ row∈c.cleanupDeputies.2.lastRows,
      row.pendingRemoval=false ∧ row.name∉c.cleanupDeputies.1) ∧
    ∀ stamp,c.dispatch stamp .cleanupDeputies=
      .ok ⟨.proceed,cleanupSignals c.cleanupDeputies.1,c.cleanupDeputies.2⟩ := by
  intro c
  have agree : c.RowsAgree := rowsAgree_after config thresholds inputs
  refine ⟨agree.ascending,fun row hr => ⟨agree.tracked row hr,agree.marks row hr⟩,agree.shown,
    cleanup_eq_pending agree,?_,fun _ => rfl⟩
  intro row hr
  constructor
  · rw [lastRows_cleanup agree,List.mem_filter,Bool.not_eq_true'] at hr
    exact hr.2
  · have kept := (List.mem_filter.mp hr).2
    rw [Bool.not_eq_true',← Bool.not_eq_true,List.contains_iff_mem] at kept
    exact kept

end Console

end FleetConsole
