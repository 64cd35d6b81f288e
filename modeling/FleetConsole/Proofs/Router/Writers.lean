import FleetConsole.Proofs.LineBuffer.Bearing
import FleetConsole.Proofs.Router.GlobalHistory
import FleetConsole.Proofs.Router.Life

namespace FleetConsole.Router

open GlobalLog (Change)

/-- The texts of the console itself. -/
inductive Notice : List Char → Prop where
  | added (stamp : Stamp) (command : CommandInfo) : Notice (addedNotice stamp command)
  | removed (stamp : Stamp) (command : CommandInfo) : Notice (removedNotice stamp command)
  | status (stamp : Stamp) (id : CommandId) (status : CommandStatus) :
      Notice (statusNotice stamp id status)
  | dropped (stamp : Stamp) (report : DropReport) : Notice (dropNotice stamp report)

theorem ends_of_notice {text : List Char} (h : Notice text) : ∃ line,text=line++['\n'] := by
  cases h with
  | added stamp command =>
    refine ⟨stamp.text++("Added ["++command.id.deputy++"] ["++command.id.command++"] ["++
      command.exec++"]").toList,?_⟩
    simp [addedNotice]
  | removed stamp command =>
    refine ⟨stamp.text++("["++command.id.deputy++"] removed ["++command.id.command++"] ["++
      command.exec++"]").toList,?_⟩
    simp [removedNotice]
  | status stamp id status =>
    refine ⟨stamp.text++("["++id.command++"] new status: "++status.label).toList,?_⟩
    simp [statusNotice]
  | dropped stamp report =>
    refine ⟨stamp.text++"Ignored ".toList++Text.decimal report.droppedBytes++
      (" bytes of output from "++report.command.display).toList,?_⟩
    simp [dropNotice]

theorem notice_of_mem_changes {e : Answered} {text : List Char}
    (h : Change.write none text∈changes e) : Notice text := by
  obtain ⟨op,reply⟩ := e
  cases op with
  | add stamp command =>
    cases reply with
    | done =>
      cases List.mem_singleton.mp h
      exact .added stamp command
    | _ => cases h
  | remove stamp command =>
    cases reply with
    | found present =>
      cases present with
      | true =>
        cases List.mem_singleton.mp h
        exact .removed stamp command
      | false => cases h
    | _ => cases h
  | changeStatus stamp id oldStatus newStatus =>
    cases List.mem_singleton.mp h
    exact .status stamp id newStatus
  | ingest message =>
    cases reply with
    | ingested outcome =>
      rw [changes] at h
      split at h
      · cases h
      · cases List.mem_singleton.mp h
    | _ => cases h
  | upkeep stamp =>
    cases reply with
    | reported reports =>
      obtain ⟨report,_,he⟩ := List.mem_map.mp h
      cases he
      exact .dropped stamp report
    | _ => cases h
  | setMaxLines maxLines =>
    cases reply with
    | done => cases List.mem_singleton.mp h
    | _ => cases h
  | clearGlobal => cases List.mem_singleton.mp h
  | _ => cases h

/-- Nothing is left open by a line of the console, whatever stands in it. -/
theorem hasOpenLine_appendNotice {σ : Type} (g : GlobalLog σ) {runs : List (Run σ)}
    {text : List Char} (h : Notice text) (shown : Run.plainText runs=Style.plain text) :
    (g.appendNotice runs).buffer.hasOpenLine=false := by
  obtain ⟨line,rfl⟩ := ends_of_notice h
  apply LineBuffer.hasOpenLine_append_of_newline
  rw [shown]
  exact Style.getLast?_plain line

/-- Who wrote a run, and how many times that command had been brought in by then. -/
structure Mark where
  writer : Option CommandId
  life : Nat
  deriving DecidableEq

def lives (id : CommandId) (past : List Answered) : Nat := past.countP (adds id)

def markOf (past : List Answered) : Option CommandId → Mark
  | none => ⟨none,0⟩
  | some id => ⟨some id,lives id past⟩

def markedPaint (past : List Answered) (writer : Option CommandId) (text : List Char) :
    List (Run (Style × Mark)) :=
  (Style.runs text).map (Run.restyle (fun style => (style,markOf past writer)))

/-- The log of all commands, written with marks. -/
def markedLog (maxLines : Nat) : List Answered → GlobalLog (Style × Mark)
  | [] => GlobalLog.new maxLines
  | e :: past => (changes e).foldl (GlobalLog.apply (markedPaint past)) (markedLog maxLines past)

theorem restyle_markedPaint (past : List Answered) (writer : Option CommandId)
    (text : List Char) :
    (markedPaint past writer text).map (Run.restyle Prod.fst)=plainPaint writer text := by
  have same : (Run.restyle Prod.fst : Run (Style × Mark) → Run Style)∘
      Run.restyle (fun style => (style,markOf past writer))=id := rfl
  rw [markedPaint,List.map_map,same,List.map_id]
  rfl

theorem plainText_markedPaint (past : List Answered) (writer : Option CommandId)
    (text : List Char) : Run.plainText (markedPaint past writer text)=Style.plain text := by
  rw [Run.plainText,markedPaint,List.flatMap_map]
  rfl

/-- Without its marks, the log is the one that is kept. -/
theorem restyle_markedLog (config : RouterConfig) (ops : List Op) :
    (markedLog config.maxLines ((new config).past ops)).restyle Prod.fst=
      ((new config).run ops).2.global := by
  have h := run_induction (r := new config) (motive := fun past r => r.Named ∧
      (markedLog config.maxLines past).restyle Prod.fst=r.global)
    ⟨named_new config,rfl⟩
    (fun past r op ih => by
      refine ⟨named_step ih.1 op,?_⟩
      rw [markedLog,GlobalLog.restyle_foldl_apply (restyle_markedPaint past),ih.2]
      exact (global_step ih.1 op).symm) ops
  exact h.2

/-- The open line is that of the writer, and every line is somebody's. -/
structure Attributed (past : List Answered) (g : GlobalLog (Style × Mark)) : Prop where
  writer : g.writer.isSome=g.buffer.hasOpenLine
  bears : g.buffer.Bears Prod.snd (markOf past g.writer)

theorem attributed_apply {past : List Answered} {g : GlobalLog (Style × Mark)}
    (h : Attributed past g) {change : Change}
    (hn : ∀ text,change=.write none text → Notice text) :
    Attributed past (g.apply (markedPaint past) change) := by
  cases change with
  | write writer text =>
    have runs : ∀ run∈markedPaint past writer text,run.style.2=markOf past writer := by
      intro run hr
      obtain ⟨_,_,rfl⟩ := List.mem_map.mp hr
      rfl
    have bears : (g.extended writer (markedPaint past writer text)).Bears Prod.snd
        (markOf past writer) := by
      rw [GlobalLog.extended]
      apply LineBuffer.bears_append ?_ runs
      split
      next own => exact own.2 ▸ h.bears
      · exact LineBuffer.bears_endOpenLine h.bears
    have silent : writer=none →
        (g.extended writer (markedPaint past writer text)).hasOpenLine=false := by
      rintro rfl
      have ended := hasOpenLine_appendNotice g (hn text rfl) (plainText_markedPaint past none text)
      rw [GlobalLog.extended,if_neg (fun own => own.1 rfl)]
      exact ended
    rw [GlobalLog.apply_write]
    cases ho : (g.extended writer (markedPaint past writer text)).hasOpenLine with
    | true =>
      cases writer with
      | none =>
        rw [silent rfl] at ho
        cases ho
      | some source => exact ⟨ho.symm,bears⟩
    | false => exact ⟨ho.symm,LineBuffer.bears_of_closed bears ho⟩
  | maxLines maxLines =>
    constructor
    · exact h.writer.trans (LineBuffer.hasOpenLine_setMaxLines g.buffer maxLines).symm
    · exact LineBuffer.bears_setMaxLines h.bears maxLines
  | clear => exact ⟨rfl,LineBuffer.bears_clear g.buffer⟩

theorem attributed_foldl {past : List Answered} {g : GlobalLog (Style × Mark)}
    (h : Attributed past g) {list : List Change}
    (hn : ∀ text,Change.write none text∈list → Notice text) :
    Attributed past (list.foldl (GlobalLog.apply (markedPaint past)) g) := by
  induction list generalizing g with
  | nil => exact h
  | cons change rest ih =>
    rw [List.foldl_cons]
    apply ih
    · exact attributed_apply h (fun text e => hn text (e ▸ List.mem_cons_self))
    · intro text hm
      exact hn text (List.mem_cons_of_mem _ hm)

/-- Where nobody has the open line, it does not matter who has been brought in since. -/
theorem attributed_later {past : List Answered} {e : Answered} {g : GlobalLog (Style × Mark)}
    (h : Attributed past g) (ha : ∀ id,g.writer=some id → adds id e=false) :
    Attributed (e :: past) g := by
  have same : markOf (e :: past) g.writer=markOf past g.writer := by
    cases hw : g.writer with
    | none => rfl
    | some id =>
      have stays : ¬adds id e=true := Bool.eq_false_iff.mp (ha id hw)
      rw [markOf,markOf,lives,lives,List.countP_cons_of_neg stays]
  exact ⟨h.writer,same.symm ▸ h.bears⟩

theorem attributed_markedLog (maxLines : Nat) (past : List Answered) :
    Attributed past (markedLog maxLines past) := by
  induction past with
  | nil => exact ⟨rfl,LineBuffer.bears_new maxLines⟩
  | cons e past ih =>
    apply attributed_later
    · exact attributed_foldl ih (fun text hm => notice_of_mem_changes hm)
    · intro id hw
      -- an addition ends the open line by its notice, so that nobody has it afterwards
      cases ha : adds id e with
      | false => rfl
      | true =>
        obtain ⟨op,reply⟩ := e
        cases op with
        | add stamp command =>
          cases reply with
          | done => cases hw
          | _ => cases ha
        | _ => cases ha

theorem writer_eq_some_iff {past : List Answered} {g : GlobalLog (Style × Mark)}
    (h : Attributed past g) (id : CommandId) :
    g.writer=some id ↔ ∃ line∈g.buffer.newestFirst.head?,line.terminated=false ∧ line.runs≠[] ∧
      ∀ run∈line.runs,run.style.2=⟨some id,lives id past⟩ := by
  have opened := h.writer
  have bears := h.bears.opened
  unfold LineBuffer.hasOpenLine at opened
  constructor
  · intro hw
    rw [hw] at opened bears
    cases hl : g.buffer.newestFirst with
    | nil =>
      rw [hl] at opened
      cases opened
    | cons line older =>
      rw [hl] at opened bears
      have ht : line.terminated=false := by simpa using opened
      obtain ⟨nonempty,marks⟩ := bears line rfl ht
      refine ⟨line,rfl,ht,fun he => nonempty (List.reverse_eq_nil_iff.mp he),?_⟩
      intro run hr
      exact marks run (List.mem_reverse.mp hr)
  · rintro ⟨line,hl,ht,nonempty,marks⟩
    obtain ⟨_,bears⟩ := bears line hl ht
    obtain ⟨run,hr⟩ := List.exists_mem_of_ne_nil _ nonempty
    have current := bears run (List.mem_reverse.mp hr)
    rw [marks run hr] at current
    cases hw : g.writer with
    | none =>
      rw [hw] at current
      cases current
    | some other =>
      rw [hw] at current
      exact congrArg Mark.writer current.symm

/-- A line of the log of all commands is one writer's, and the writer noted is that of the open
line, all of which it wrote since it was last brought in. -/
theorem lines_keep_one_writer (config : RouterConfig) (ops : List Op) :
    (markedLog config.maxLines ((new config).past ops)).restyle Prod.fst=
      ((new config).run ops).2.global ∧
    (∀ line∈(markedLog config.maxLines ((new config).past ops)).buffer.lines,
      ∀ a∈line.runs,∀ b∈line.runs,a.style.2.writer=b.style.2.writer) ∧
    ((new config).run ops).2.global.writer.isSome=
      ((new config).run ops).2.global.buffer.hasOpenLine ∧
    (∀ id,((new config).run ops).2.global.writer=some id ↔
      ∃ line∈(markedLog config.maxLines ((new config).past ops)).buffer.newestFirst.head?,
        line.terminated=false ∧ line.runs≠[] ∧
        ∀ run∈line.runs,run.style.2=⟨some id,lives id ((new config).past ops)⟩) ∧
    ∀ (g : GlobalLog Style) (t : Style.Table) (text : List Char),Notice text →
      (g.appendNotice (Style.scan t text).1).buffer.hasOpenLine=false := by
  have same := restyle_markedLog config ops
  have attributed := attributed_markedLog config.maxLines ((new config).past ops)
  refine ⟨same,?_,?_,?_,?_⟩
  · intro line hl a ha b hb
    obtain ⟨m,marks⟩ := attributed.bears.lines line (List.mem_reverse.mp hl)
    rw [marks a (List.mem_reverse.mp ha),marks b (List.mem_reverse.mp hb)]
  · rw [← same]
    exact attributed.writer.trans (LineBuffer.hasOpenLine_restyle Prod.fst _).symm
  · intro id
    rw [← same]
    exact writer_eq_some_iff attributed id
  · intro g t text h
    apply hasOpenLine_appendNotice g h
    rw [Style.scan_fst]
    rfl

/-- A command is removed with its line open, comes back and opens the next one, in a log that
keeps two lines and with an escape in a name. -/
def takeover : List Op :=
  [.add .masked radar,.add .masked camera,.ingest ⟨camera.id,"one"⟩,.remove .masked camera,
    .add .masked camera,.changeStatus .masked ⟨"deck","\x1b[31"⟩ .running .running,
    .ingest ⟨radar.id,"ping\n"⟩,.ingest ⟨camera.id,"two"⟩,.ingest ⟨camera.id,"\x1b[1mthree"⟩]

theorem lines_of_takeover :
    ((new (.ofQuota 40 2)).run takeover).2.global.writer=some camera.id ∧
    ∃ line∈(markedLog 2 ((new (.ofQuota 40 2)).past takeover)).buffer.newestFirst.head?,
      line.terminated=false ∧ line.runs≠[] ∧ ∀ run∈line.runs,run.style.2=⟨some camera.id,2⟩ := by
  obtain ⟨_,_,_,writer,_⟩ := lines_keep_one_writer (.ofQuota 40 2) takeover
  have noted : ((new (.ofQuota 40 2)).run takeover).2.global.writer=some camera.id := by
    decide +kernel
  have back : lives camera.id ((new (.ofQuota 40 2)).past takeover)=2 := by decide +kernel
  have written := (writer camera.id).mp noted
  rw [back] at written
  exact ⟨noted,written⟩

end FleetConsole.Router
