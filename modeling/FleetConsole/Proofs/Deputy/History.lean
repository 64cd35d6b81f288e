import FleetConsole.Proofs.Deputy.Monitor
import FleetConsole.Proofs.SortedMap

namespace FleetConsole.Monitor

inductive Op where
  | heartbeat (beat : Heartbeat)
  | reconcile (live : List String)
  | cleanup
  deriving DecidableEq, Repr

/-- An operation together with the deputies that it pruned. -/
abbrev Answered := Op × List String

/-- Only a cleanup prunes deputies. -/
def step (m : Monitor) : Op → List String × Monitor
  | .heartbeat beat => ([],m.heartbeat beat)
  | .reconcile live => ([],m.reconcile live)
  | .cleanup => m.cleanup

/-- A run so far: what was done, the last operation first, and what came of it. -/
structure Trace where
  past : List Answered
  monitor : Monitor

def Trace.next (t : Trace) (op : Op) : Trace where
  past := (op,(t.monitor.step op).1) :: t.past
  monitor := (t.monitor.step op).2

def trace (thresholds : Thresholds) (ops : List Op) : Trace := ops.foldl Trace.next ⟨[],new thresholds⟩

/-- Whether an operation makes the monitor track a deputy. -/
def brings (name : String) : Answered → Bool
  | (.heartbeat beat,_) => decide (beat.deputy=name)
  | (.reconcile live,_) => decide (name∈live)
  | (.cleanup,_) => false

def prunes (name : String) (e : Answered) : Bool := decide (name∈e.2)

def Op.isReconcile : Op → Bool
  | .reconcile _ => true
  | _ => false

/-- The heartbeat that an operation is of a deputy, if it is one. -/
def beatOf (name : String) : Answered → Option Heartbeat
  | (.heartbeat beat,_) => if beat.deputy=name then some beat else none
  | _ => none

def sincePruned (name : String) (past : List Answered) : List Answered :=
  past.takeWhile (fun e => !prunes name e)

/-- Since a deputy was last pruned it sent a heartbeat or was live at a reconciliation. -/
def Tracked (name : String) (past : List Answered) : Prop :=
  ∃ e∈sincePruned name past,brings name e=true

/-- The heartbeat that arrived last since the deputy was last pruned. -/
def latestBeat (name : String) (past : List Answered) : Option Heartbeat :=
  (sincePruned name past).findSome? (beatOf name)

/-- A deputy was not live at the latest reconciliation, but tracked before it and ever since. -/
def Marked (name : String) (past : List Answered) : Prop :=
  ∃ recent live older,past=recent++(.reconcile live,[]) :: older ∧
    (∀ e∈recent,e.1.isReconcile=false ∧ prunes name e=false) ∧ name∉live ∧ Tracked name older

/-- A load that is negative or not a number counts as zero, as does one that was never told. -/
def toldLoad : Option Heartbeat → Binary64
  | none => .zero
  | some beat => if beat.load.isNaN || beat.load.isNegative then .zero else beat.load

variable {name : String} {e : Answered} {past : List Answered}

theorem sincePruned_of_prunes (h : prunes name e=true) : sincePruned name (e :: past)=[] := by
  simp [sincePruned,h]

theorem sincePruned_of_not_prunes (h : prunes name e=false) :
    sincePruned name (e :: past)=e :: sincePruned name past := by
  simp [sincePruned,h]

theorem tracked_of_prunes (h : prunes name e=true) : ¬Tracked name (e :: past) := by
  rw [Tracked,sincePruned_of_prunes h]
  simp

theorem tracked_of_not_prunes (h : prunes name e=false) :
    Tracked name (e :: past) ↔ brings name e=true ∨ Tracked name past := by
  rw [Tracked,sincePruned_of_not_prunes h]
  simp [Tracked]

theorem latestBeat_of_not_prunes (h : prunes name e=false) :
    latestBeat name (e :: past)=(beatOf name e).or (latestBeat name past) := by
  rw [latestBeat,sincePruned_of_not_prunes h,List.findSome?_cons]
  cases beatOf name e <;> rfl

theorem brings_of_beatOf {beat : Heartbeat} (h : beatOf name e=some beat) : brings name e=true := by
  obtain ⟨op,pruned⟩ := e
  cases op with
  | heartbeat beat' =>
    rw [beatOf] at h
    split at h
    next own => exact decide_eq_true own
    next => cases h
  | _ => cases h

/-- A heartbeat makes a deputy tracked. -/
theorem latestBeat_of_not_tracked (h : ¬Tracked name past) : latestBeat name past=none := by
  rw [latestBeat,List.findSome?_eq_none_iff]
  intro e he
  cases hb : beatOf name e with
  | none => rfl
  | some beat => exact absurd ⟨e,he,brings_of_beatOf hb⟩ h

theorem marked_reconcile {live : List String} :
    Marked name ((.reconcile live,[]) :: past) ↔ name∉live ∧ Tracked name past := by
  constructor
  · rintro ⟨recent,live',older,split,quiet,absent,tracked⟩
    cases recent with
    | nil =>
      cases split
      exact ⟨absent,tracked⟩
    | cons first recent =>
      obtain ⟨rfl,_⟩ := List.cons.inj split
      cases (quiet _ List.mem_cons_self).1
  · rintro ⟨absent,tracked⟩
    exact ⟨[],live,past,rfl,nofun,absent,tracked⟩

theorem marked_cons (h : e.1.isReconcile=false) :
    Marked name (e :: past) ↔ prunes name e=false ∧ Marked name past := by
  constructor
  · rintro ⟨recent,live,older,split,quiet,absent,tracked⟩
    cases recent with
    | nil =>
      cases split
      cases h
    | cons first recent =>
      obtain ⟨rfl,rest⟩ := List.cons.inj split
      exact ⟨(quiet _ List.mem_cons_self).2,recent,live,older,rest,
        fun e he => quiet e (List.mem_cons_of_mem _ he),absent,tracked⟩
  · rintro ⟨kept,recent,live,older,rfl,quiet,absent,tracked⟩
    exact ⟨e :: recent,live,older,rfl,List.forall_mem_cons.mpr ⟨⟨h,kept⟩,quiet⟩,absent,tracked⟩

theorem tracked_of_marked (h : Marked name past) : Tracked name past := by
  obtain ⟨recent,live,older,rfl,quiet,_,tracked⟩ := h
  induction recent with
  | nil => exact (tracked_of_not_prunes rfl).mpr (.inr tracked)
  | cons first recent ih =>
    obtain ⟨now,before⟩ := List.forall_mem_cons.mp quiet
    exact (tracked_of_not_prunes now.2).mpr (.inr (ih before))

/-- What is kept of a deputy, if anything, is what its history tells. -/
structure Recalls (name : String) (past : List Answered) (kept : Option Deputy) : Prop where
  tracked : kept.isSome=true ↔ Tracked name past
  lastUpdate : ∀ d,kept=some d → d.lastUpdate=(latestBeat name past).map Heartbeat.moment
  load : ∀ d,kept=some d → d.load=toldLoad (latestBeat name past)
  marked : ∀ d,kept=some d → (d.pendingRemoval=true ↔ Marked name past)

theorem recalls_none (h : ¬Tracked name past) : Recalls name past none :=
  ⟨⟨nofun,fun t => absurd t h⟩,nofun,nofun,nofun⟩

theorem not_tracked_of_recalls (h : Recalls name past none) : ¬Tracked name past :=
  fun t => Bool.noConfusion (h.tracked.mpr t)

/-- An operation that neither brings nor prunes a deputy tells nothing about it. -/
theorem recalls_idle {kept : Option Deputy} (h : Recalls name past kept) (hb : brings name e=false)
    (hp : prunes name e=false) (hr : e.1.isReconcile=false) : Recalls name (e :: past) kept := by
  have beat : beatOf name e=none := by
    cases hbeat : beatOf name e with
    | none => rfl
    | some beat =>
      rw [brings_of_beatOf hbeat] at hb
      cases hb
  have latest : latestBeat name (e :: past)=latestBeat name past := by
    rw [latestBeat_of_not_prunes hp,beat,Option.none_or]
  constructor
  · rw [h.tracked,tracked_of_not_prunes hp,hb]
    simp
  · rw [latest]
    exact h.lastUpdate
  · rw [latest]
    exact h.load
  · intro d hd
    rw [h.marked d hd,marked_cons hr]
    simp [hp]

theorem recalls_heartbeat {m : Monitor} (h : Recalls name past (m.deputies.get? name))
    (beat : Heartbeat) :
    Recalls name ((.heartbeat beat,[]) :: past) ((m.heartbeat beat).deputies.get? name) := by
  rw [heartbeat,SortedMap.get?_insert]
  by_cases own : beat.deputy=name
  · subst own
    have latest : latestBeat beat.deputy ((.heartbeat beat,[]) :: past)=some beat := by
      rw [latestBeat_of_not_prunes rfl,beatOf,if_pos rfl,Option.some_or]
    rw [if_pos rfl]
    constructor
    · exact ⟨fun _ => (tracked_of_not_prunes rfl).mpr (.inl (decide_eq_true rfl)),fun _ => rfl⟩
    · rintro d ⟨⟩
      rw [latest]
      rfl
    · rintro d ⟨⟩
      rw [latest]
      rfl
    · -- a heartbeat leaves the mark, and who was not tracked had none
      rintro d ⟨⟩
      have same : Marked beat.deputy ((.heartbeat beat,[]) :: past) ↔ Marked beat.deputy past := by
        rw [marked_cons rfl]
        exact and_iff_right rfl
      rw [same]
      cases hk : m.deputies.get? beat.deputy with
      | none =>
        rw [hk] at h
        exact ⟨nofun,fun hm => absurd (tracked_of_marked hm) (not_tracked_of_recalls h)⟩
      | some known => exact h.marked known hk
  · rw [if_neg own]
    exact recalls_idle h (decide_eq_false own) rfl rfl

theorem recalls_reconcile {m : Monitor} (h : Recalls name past (m.deputies.get? name))
    (live : List String) :
    Recalls name ((.reconcile live,[]) :: past) ((m.reconcile live).deputies.get? name) := by
  have latest : latestBeat name ((.reconcile live,[]) :: past)=latestBeat name past := by
    rw [latestBeat_of_not_prunes rfl]
    rfl
  have tracked : Tracked name ((.reconcile live,[]) :: past) ↔ name∈live ∨ Tracked name past := by
    rw [tracked_of_not_prunes rfl,brings,decide_eq_true_iff]
  rw [get?_reconcile]
  by_cases present : name∈live
  · rw [if_pos present]
    have unmarked : ¬Marked name ((.reconcile live,[]) :: past) := fun hm =>
      (marked_reconcile.mp hm).1 present
    refine ⟨⟨fun _ => tracked.mpr (.inl present),fun _ => rfl⟩,?_,?_,?_⟩
    all_goals
      rintro d ⟨⟩
    · rw [latest]
      cases hk : m.deputies.get? name with
      | none =>
        rw [hk] at h
        rw [latestBeat_of_not_tracked (not_tracked_of_recalls h)]
        rfl
      | some known => exact h.lastUpdate known hk
    · rw [latest]
      cases hk : m.deputies.get? name with
      | none =>
        rw [hk] at h
        rw [latestBeat_of_not_tracked (not_tracked_of_recalls h)]
        rfl
      | some known => exact h.load known hk
    · exact ⟨nofun,fun hm => absurd hm unmarked⟩
  · rw [if_neg present]
    cases hk : m.deputies.get? name with
    | none =>
      rw [hk] at h
      exact recalls_none (fun t => (tracked.mp t).elim present (not_tracked_of_recalls h))
    | some known =>
      have before := h.tracked.mp (by rw [hk]; rfl)
      refine ⟨⟨fun _ => tracked.mpr (.inr before),fun _ => rfl⟩,?_,?_,?_⟩
      all_goals
        rintro d ⟨⟩
      · rw [latest]
        exact h.lastUpdate known hk
      · rw [latest]
        exact h.load known hk
      · exact ⟨fun _ => marked_reconcile.mpr ⟨present,before⟩,fun _ => rfl⟩

theorem mem_cleanup {m : Monitor} {name : String} : name∈m.cleanup.1 ↔ m.marks name=true := by
  rw [cleanup,← SortedMap.contains_iff_mem_keys,SortedMap.contains,SortedMap.get?_filter,marks]
  cases m.deputies.get? name with
  | none => simp
  | some d => cases h : d.pendingRemoval <;> simp [Option.filter,h]

/-- A cleanup forgets who it names, and changes nothing else. -/
theorem get?_cleanup (m : Monitor) (name : String) :
    m.cleanup.2.deputies.get? name=
      if name∈m.cleanup.1 then none else m.deputies.get? name := by
  have kept : m.cleanup.2.deputies.get? name=
      (m.deputies.get? name).filter (fun d => !d.pendingRemoval) := SortedMap.get?_filter _ _ _
  rw [kept]
  simp only [mem_cleanup,marks]
  cases m.deputies.get? name with
  | none => rfl
  | some d => cases h : d.pendingRemoval <;> simp [Option.filter,h]

theorem recalls_cleanup {m : Monitor} (h : Recalls name past (m.deputies.get? name)) :
    Recalls name ((.cleanup,m.cleanup.1) :: past) (m.cleanup.2.deputies.get? name) := by
  rw [get?_cleanup]
  by_cases pruned : name∈m.cleanup.1
  · rw [if_pos pruned]
    exact recalls_none (tracked_of_prunes (decide_eq_true pruned))
  · rw [if_neg pruned]
    exact recalls_idle h rfl (decide_eq_false pruned) rfl

theorem recalls_trace (thresholds : Thresholds) (ops : List Op) (name : String) :
    Recalls name (trace thresholds ops).past ((trace thresholds ops).monitor.deputies.get? name) := by
  refine List.foldlRecOn (motive := fun t : Trace => Recalls name t.past (t.monitor.deputies.get? name))
    ops _ (recalls_none ?_) ?_
  · rintro ⟨e,he,_⟩
    cases he
  · intro t h op _
    cases op with
    | heartbeat beat => exact recalls_heartbeat h beat
    | reconcile live => exact recalls_reconcile h live
    | cleanup => exact recalls_cleanup h

theorem thresholds_trace (thresholds : Thresholds) (ops : List Op) :
    (trace thresholds ops).monitor.thresholds=thresholds := by
  refine List.foldlRecOn (motive := fun t : Trace => t.monitor.thresholds=thresholds) ops _ rfl ?_
  intro t h op _
  cases op <;> exact h

theorem mem_rows {m : Monitor} {now : Instant} {row : DeputyRow} :
    row∈m.rows now ↔
      ∃ d,m.deputies.get? row.name=some d ∧ row=DeputyRow.of m.thresholds now row.name d := by
  rw [rows,List.mem_map]
  constructor
  · rintro ⟨e,he,rfl⟩
    exact ⟨e.2,SortedMap.get?_eq_some_iff.mpr he,rfl⟩
  · rintro ⟨d,hd,e⟩
    exact ⟨(row.name,d),SortedMap.get?_eq_some_iff.mp hd,e.symm⟩

theorem contains_eq_isSome (m : Monitor) (name : String) :
    m.contains name=(m.deputies.get? name).isSome := rfl

theorem marks_iff (thresholds : Thresholds) (ops : List Op) (name : String) :
    (trace thresholds ops).monitor.marks name=true ↔ Marked name (trace thresholds ops).past := by
  have h := recalls_trace thresholds ops name
  rw [marks]
  cases hk : (trace thresholds ops).monitor.deputies.get? name with
  | none =>
    rw [hk] at h
    exact ⟨nofun,fun hm => absurd (tracked_of_marked hm) (not_tracked_of_recalls h)⟩
  | some d => exact h.marked d hk

/-- Of two reconciliations in a history the latest is found in only one way. -/
theorem latest_reconcile_unique {recent recent' older older' : List Answered}
    {live live' : List String}
    (split : recent++(.reconcile live,[]) :: older=recent'++(.reconcile live',[]) :: older')
    (quiet : ∀ e∈recent,e.1.isReconcile=false) (quiet' : ∀ e∈recent',e.1.isReconcile=false) :
    live=live' ∧ older=older' := by
  induction recent generalizing recent' with
  | nil =>
    cases recent' with
    | nil =>
      cases split
      exact ⟨rfl,rfl⟩
    | cons first recent' =>
      cases split
      cases quiet' _ List.mem_cons_self
  | cons first recent ih =>
    cases recent' with
    | nil =>
      cases split
      cases quiet _ List.mem_cons_self
    | cons first' recent' =>
      exact ih (List.cons.inj split).2 (fun e he => quiet e (List.mem_cons_of_mem _ he))
        (fun e he => quiet' e (List.mem_cons_of_mem _ he))

theorem keys_ascending {α : Type} (m : SortedMap String α) : m.keys.Pairwise (·<·) := by
  rw [SortedMap.keys,List.pairwise_map]
  exact m.ascending.imp compareOfLessAndEq_eq_lt.mp

/-- Only who is live counts, not in which order or how often they are named. -/
theorem reconcile_congr (m : Monitor) {live live' : List String}
    (h : ∀ name,name∈live ↔ name∈live') : m.reconcile live=m.reconcile live' := by
  have same : (m.reconcile live).deputies=(m.reconcile live').deputies := by
    apply SortedMap.ext_get?
    intro name
    rw [get?_reconcile,get?_reconcile]
    simp only [h]
  exact congrArg (Monitor.mk m.thresholds) same

theorem contains_reconcile_cleanup (m : Monitor) (live : List String) (name : String) :
    (m.reconcile live).cleanup.2.contains name=true ↔ name∈live := by
  rw [contains_eq_isSome,get?_cleanup]
  simp only [mem_cleanup,marks,get?_reconcile]
  by_cases present : name∈live
  · simp [present]
  · cases m.deputies.get? name <;> simp [present]

/-- Whom the monitor tracks, what they said last, who is marked and whom a cleanup takes are told
from the history of the run. -/
theorem monitor_recalls (thresholds : Thresholds) (ops : List Op) :
    let past := (trace thresholds ops).past
    let m := (trace thresholds ops).monitor
    (∀ name,m.contains name=true ↔ Tracked name past) ∧
    (∀ name d,m.deputies.get? name=some d →
      d.lastUpdate=(latestBeat name past).map Heartbeat.moment ∧
      d.load=toldLoad (latestBeat name past) ∧ (d.pendingRemoval=true ↔ Marked name past)) ∧
    (m.cleanup.1.Pairwise (·<·) ∧ (∀ name,name∈m.cleanup.1 ↔ Marked name past) ∧
      ∀ name,m.cleanup.2.deputies.get? name=
        if name∈m.cleanup.1 then none else m.deputies.get? name) ∧
    (∀ recent live older,past=recent++(.reconcile live,[]) :: older →
      (∀ e∈recent,e.1.isReconcile=false) →
      ∀ name∈m.cleanup.1,name∉live ∧ Tracked name older) ∧
    (∀ live name,(m.reconcile live).cleanup.2.contains name=true ↔ name∈live) ∧
    (∀ live live',(∀ name,name∈live ↔ name∈live') → m.reconcile live=m.reconcile live') ∧
    ∀ now,((m.rows now).map DeputyRow.name).Pairwise (·<·) ∧
      ∀ row,row∈m.rows now ↔
        ∃ d,m.deputies.get? row.name=some d ∧ row=DeputyRow.of thresholds now row.name d := by
  intro past m
  have recalls := recalls_trace thresholds ops
  refine ⟨?_,?_,⟨keys_ascending _,?_,?_⟩,?_,?_,?_,?_⟩
  · intro name
    exact (recalls name).tracked
  · intro name d hd
    exact ⟨(recalls name).lastUpdate d hd,(recalls name).load d hd,(recalls name).marked d hd⟩
  · intro name
    rw [mem_cleanup]
    exact marks_iff thresholds ops name
  · exact get?_cleanup m
  · intro recent live older split quiet name hm
    rw [mem_cleanup,marks_iff] at hm
    obtain ⟨recent',live',older',split',quiet',absent,tracked⟩ := hm
    obtain ⟨rfl,rfl⟩ := latest_reconcile_unique (split.symm.trans split') quiet
      (fun e he => (quiet' e he).1)
    exact ⟨absent,tracked⟩
  · exact contains_reconcile_cleanup m
  · intro live live' same
    exact reconcile_congr m same
  · intro now
    have names : (m.rows now).map DeputyRow.name=m.deputies.keys := by
      rw [rows,List.map_map]
      rfl
    rw [names]
    refine ⟨keys_ascending _,fun row => ?_⟩
    rw [mem_rows,thresholds_trace]

/-- A heartbeat does not take a mark away, and a deputy first heard after the reconciliation has
none. -/
example :
    (trace .standard
      [.heartbeat ⟨"north",.zero,⟨9,0⟩⟩,.reconcile ["east"],.heartbeat ⟨"north",.zero,⟨5,0⟩⟩,
        .heartbeat ⟨"south",.zero,⟨6,0⟩⟩]).monitor.cleanup.1=["north"] := by decide +kernel

end FleetConsole.Monitor
