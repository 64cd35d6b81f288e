import FleetConsole.Proofs.LinePrinter
import FleetConsole.Proofs.Router.FullLog

namespace FleetConsole

/-- A router at work and a printer beside it, with what that has printed. -/
structure Watch where
  router : Router
  printed : Nat
  output : List (Line Style)

namespace Watch

inductive Act where
  | work (op : Router.Op)
  | tick
  deriving DecidableEq, Repr

def Act.op? : Act → Option Router.Op
  | .work op => some op
  | .tick => none

def ops (acts : List Act) : List Router.Op := acts.filterMap Act.op?

def start (config : RouterConfig) : Watch := ⟨Router.new config,0,[]⟩

def log (w : Watch) : LineBuffer Style := w.router.global.buffer

def step (w : Watch) : Act → Watch
  | .work op => { w with router := (w.router.step op).2 }
  | .tick =>
    let (lines,printed) := LinePrinter.tick w.printed w.log
    { w with printed := printed, output := w.output++lines }

def after (config : RouterConfig) (acts : List Act) : Watch := acts.foldl step (start config)

/-- All that is printed. When a run is over there is one more upkeep, and no line is held back any
longer. -/
def printedBy (config : RouterConfig) (acts : List Act) (stamp : Stamp) : List (Line Style) :=
  let last := after config (acts++[.work (.upkeep stamp)])
  last.output++LinePrinter.flush last.printed last.log

/-- The printer has not come to a line, and the log shows it no longer. -/
def Lost (w : Watch) (number : Nat) : Prop :=
  w.printed<number ∧ number ≤ w.log.lastSeq ∧ number∉w.log.lines.map Line.seq

/-- A line was evicted or cleared before the printer came to it. -/
def Missed (config : RouterConfig) (acts : List Act) (number : Nat) : Prop :=
  ∃ before,before <+: acts ∧ (after config before).Lost number

variable (config : RouterConfig) (acts : List Act)

theorem after_concat (act : Act) : after config (acts++[act])=(after config acts).step act := by
  rw [after,List.foldl_append]
  rfl

theorem missed_concat (act : Act) (number : Nat) :
    Missed config (acts++[act]) number ↔
      Missed config acts number ∨ ((after config acts).step act).Lost number := by
  constructor
  · rintro ⟨before,hp,lost⟩
    rcases List.prefix_concat_iff.mp hp with rfl | hp
    · rw [after_concat] at lost
      exact .inr lost
    · exact .inl ⟨before,hp,lost⟩
  · rintro (⟨before,hp,lost⟩ | lost)
    · exact ⟨before,hp.trans (List.prefix_append acts [act]),lost⟩
    · exact ⟨acts++[act],List.prefix_refl _,by rwa [after_concat]⟩

theorem router_after : (after config acts).router=((Router.new config).run (ops acts)).2 := by
  induction acts using List.reverseRecOn with
  | nil => rfl
  | append_singleton acts act ih =>
    rw [after_concat,ops,List.filterMap_append]
    cases act with
    | work op =>
      have one : [Act.work op].filterMap Act.op?=[op] := rfl
      rw [one,Router.run_concat,step,ih]
      rfl
    | tick =>
      have none : [Act.tick].filterMap Act.op?=[] := rfl
      rw [none,List.append_nil]
      exact ih

/-- All lines that there have been in the log. -/
def allLines : Archive Style := Router.fullLog config (ops acts)

theorem shown_allLines : (allLines config acts).shown=(after config acts).log := by
  rw [allLines,Router.shown_fullLog,log,router_after]

theorem ordered_allLines : (allLines config acts).Ordered := (Router.sound_fullLog config _).toOrdered

theorem lastSeq_log : (after config acts).log.lastSeq=(allLines config acts).size := by
  rw [← shown_allLines]
  rfl

theorem allLines_append (later : List Act) :
    ∃ changes,allLines config (acts++later)=(allLines config acts).changeAll changes := by
  rw [allLines,ops,List.filterMap_append]
  exact Router.fullLog_append config _ _

theorem allLines_tick : allLines config (acts++[.tick])=allLines config acts := by
  rw [allLines,ops,List.filterMap_append]
  exact congrArg (Router.fullLog config) (List.append_nil _)

theorem lost_iff (number : Nat) :
    (after config acts).Lost number ↔
      (after config acts).printed<number ∧ number ≤ (allLines config acts).discarded := by
  have ordered := ordered_allLines config acts
  rw [Lost,lastSeq_log,← shown_allLines]
  constructor
  · rintro ⟨later,le,gone⟩
    rw [Archive.mem_seqs_shown ordered le] at gone
    exact ⟨later,Nat.le_of_not_lt gone⟩
  · rintro ⟨later,gone⟩
    have le := Nat.le_trans gone (allLines config acts).discarded_le
    exact ⟨later,le,fun shown =>
      absurd ((Archive.mem_seqs_shown ordered le).mp shown) (Nat.not_lt_of_le gone)⟩

/-- The printer has caught up with the log, and printed ended lines only. -/
structure Kept : Prop where
  caught : LinePrinter.Caught (allLines config acts) (after config acts).printed
    (after config acts).output (Missed config acts)
  complete : ∀ line∈(after config acts).output,line.terminated=true

variable {config acts}

theorem kept_work (h : Kept config acts) (op : Router.Op) : Kept config (acts++[.work op]) := by
  have same : (after config (acts++[.work op])).printed=(after config acts).printed ∧
      (after config (acts++[.work op])).output=(after config acts).output := by
    rw [after_concat]
    exact ⟨rfl,rfl⟩
  obtain ⟨changes,grown⟩ := allLines_append config acts [.work op]
  constructor
  · rw [same.1,same.2,grown]
    refine LinePrinter.caught_changeAll h.caught (ordered_allLines config acts) h.complete changes ?_
    intro number
    rw [missed_concat,← after_concat,lost_iff,same.1,grown]
  · rw [same.2]
    exact h.complete

theorem kept_tick (h : Kept config acts) : Kept config (acts++[.tick]) := by
  have same := allLines_tick config acts
  have ready : (LinePrinter.tick (after config acts).printed (after config acts).log).1 <+:
      (allLines config acts).lines.drop
        (max (allLines config acts).discarded (after config acts).printed) := by
    rw [← LinePrinter.flush_shown (ordered_allLines config acts),shown_allLines]
    exact List.takeWhile_prefix _
  have caught := LinePrinter.caught_print h.caught (ordered_allLines config acts) ready
  have moved : (after config (acts++[.tick])).printed=LinePrinter.advance _ _ :=
    congrArg printed (after_concat config acts .tick)
  -- whatever is lost where the printer stands after the tick was lost before it
  have nothing : Missed config (acts++[.tick])=Missed config acts := by
    funext number
    rw [missed_concat,← after_concat,lost_iff,same,moved]
    exact propext (or_iff_left_of_imp fun lost => caught.passed number lost.1 lost.2)
  constructor
  · rw [same,nothing,after_concat]
    exact caught
  · rw [after_concat]
    intro line hl
    rcases List.mem_append.mp hl with hl | hl
    · exact h.complete line hl
    · exact List.mem_takeWhile_imp hl

variable (config acts)

theorem kept_after : Kept config acts := by
  induction acts using List.reverseRecOn with
  | nil =>
    refine ⟨LinePrinter.caught_new config.maxLines ?_,fun line hl => by cases hl⟩
    rintro number ⟨before,hp,lost⟩
    rw [List.prefix_nil.mp hp,lost_iff] at lost
    exact absurd lost.1 (Nat.not_lt_of_le lost.2)
  | append_singleton acts act ih =>
    cases act with
    | work op => exact kept_work ih op
    | tick => exact kept_tick ih

/-- After a tick the printer has printed every ended line that the log shows. -/
theorem printed_of_tick {line : Line Style}
    (shows : line∈(after config (acts++[.tick])).log.lines) (ended : line.terminated=true) :
    line∈(after config (acts++[.tick])).output := by
  have ordered := ordered_allLines config acts
  have caught := (kept_after config (acts++[.tick])).caught
  have moved : (after config (acts++[.tick])).printed=
      (LinePrinter.tick (after config acts).printed (allLines config acts).shown).2 := by
    rw [after_concat,shown_allLines]
    rfl
  rw [← shown_allLines,allLines_tick] at shows
  rw [allLines_tick,moved] at caught
  have there : line∈(allLines config acts).lines := by
    rw [Archive.lines_shown] at shows
    exact List.mem_of_mem_drop shows
  obtain ⟨pos,le,_⟩ := Archive.getElem?_of_mem ordered there
  have reached : line.seq ≤
      (LinePrinter.tick (after config acts).printed (allLines config acts).shown).2 := by
    by_contra beyond
    have later := decide_eq_true (Nat.lt_of_not_le beyond)
    have waits := LinePrinter.open_of_waiting ordered _ (List.mem_filter.mpr ⟨shows,later⟩)
    rw [ended] at waits
    cases waits
  have kept : ¬Missed config (acts++[.tick]) line.seq := by
    intro miss
    have shown := (Archive.mem_seqs_shown ordered le).mp (List.mem_map_of_mem shows)
    exact absurd (caught.missed_le _ miss) (Nat.not_le_of_lt shown)
  obtain ⟨line',hl',same⟩ := List.mem_map.mp ((caught.reached _ pos reached).mpr kept)
  rwa [← Archive.eq_of_seq_eq ordered (caught.placed line' hl').1 there same]

/-- Lines that are ended stay what they are. -/
theorem eq_of_later {before later : List Act} {line line' : Line Style}
    (hl : line∈(allLines config before).lines) (ended : line.terminated=true)
    (hl' : line'∈(after config (before++later)).log.lines) (e : line'.seq=line.seq) :
    line'=line := by
  obtain ⟨changes,grown⟩ := allLines_append config before later
  have ordered := ordered_allLines config (before++later)
  have kept : line∈(allLines config (before++later)).lines := by
    rw [grown]
    exact Archive.mem_changeAll (ordered_allLines config before) hl ended changes
  rw [← shown_allLines,Archive.lines_shown] at hl'
  exact Archive.eq_of_seq_eq ordered (List.mem_of_mem_drop hl') kept e

/-- Whenever the printer ticks, each line of the log is printed once, in order and complete, unless
it was gone before the printer came to it. -/
theorem printed_once (config : RouterConfig) (acts : List Act) (stamp : Stamp) :
    let all := acts++[.work (.upkeep stamp)]
    let log := (after config all).log
    let seqs := (printedBy config acts stamp).map Line.seq
    let lines := (allLines config all).lines
    seqs.Pairwise (·<·) ∧
    (∀ before later,all=before++later → ∀ line∈(after config before).output,
      line.terminated=true ∧ ∀ next,next <+: later →
        ∀ line'∈(after config (before++next)).log.lines,line'.seq=line.seq → line'=line) ∧
    (∀ number,1 ≤ number → number ≤ log.lastSeq →
      seqs.count number=1 ∧ ¬Missed config all number ∨
      seqs.count number=0 ∧ Missed config all number) ∧
    ((∀ number,¬Missed config all number) → printedBy config acts stamp=lines) ∧
    lines.map Line.seq=List.range' 1 log.lastSeq ∧
    (∀ before,before <+: all → ∀ line∈(after config before).log.lines,
      line.terminated=true → line∈lines) ∧
    log.lines <:+ lines := by
  intro all log seqs lines
  have kept := kept_after config all
  have ordered := ordered_allLines config all
  have caught := kept.caught
  have shown : (allLines config all).shown=log := shown_allLines config all
  have ascending := LinePrinter.ascending_flushed caught ordered
  rw [shown] at ascending
  refine ⟨ascending,?_,?_,?_,?_,?_,?_⟩
  · intro before later _ line hl
    have earlier := kept_after config before
    have ended := earlier.complete line hl
    exact ⟨ended,fun next _ line' hl' e =>
      eq_of_later config (earlier.caught.placed line hl).1 ended hl' e⟩
  · intro number pos le
    rw [lastSeq_log] at le
    have printed := LinePrinter.mem_flushed caught ordered pos le
    rw [shown] at printed
    have distinct : seqs.Nodup := ascending.imp Nat.ne_of_lt
    by_cases miss : Missed config all number
    · exact .inr ⟨List.count_eq_zero.mpr (fun hm => printed.mp hm miss),miss⟩
    · exact .inl ⟨List.count_eq_one_of_mem distinct (printed.mpr miss),miss⟩
  · intro none
    have whole := LinePrinter.flushed_of_none_missed caught ordered none
    rwa [shown] at whole
  · rw [lastSeq_log]
    exact Archive.seqs_lines ordered
  · rintro before ⟨later,split⟩ line hl ended
    obtain ⟨changes,grown⟩ := allLines_append config before later
    rw [split] at grown
    rw [← shown_allLines,Archive.lines_shown] at hl
    have stays := Archive.mem_changeAll (ordered_allLines config before) (List.mem_of_mem_drop hl)
      ended changes
    rwa [← grown] at stays
  · rw [← shown,Archive.lines_shown]
    exact List.drop_suffix _ _

/-- A log of two lines: the notice is printed, of three lines written at once the first one is
evicted unseen, the open line waits for the end. -/
example :
    ((printedBy (.ofQuota 9 2)
      [.work (.add .masked Router.camera),.tick,.work (.ingest ⟨Router.camera.id,"a\nb\nc"⟩),.tick]
      .masked).map (fun line => (line.seq,line.terminated)))=
      [(1,true),(3,true),(4,false)] := by decide +kernel

end Watch

end FleetConsole
