import FleetConsole.Proofs.GlobalLog.Change
import FleetConsole.Proofs.Router.Step

namespace FleetConsole.Router

open GlobalLog (Change)

/-- What an answered operation does to the log of all commands. Output of which nothing was
accepted is not written at all. -/
def changes : Answered → List Change
  | (.add stamp command,.done) => [.write none (addedNotice stamp command)]
  | (.remove stamp command,.found true) => [.write none (removedNotice stamp command)]
  | (.changeStatus stamp id _ newStatus,_) => [.write none (statusNotice stamp id newStatus)]
  | (.ingest message,.ingested outcome) =>
    if message.acceptedText outcome=[] then []
    else [.write (some message.command) (message.acceptedText outcome)]
  | (.upkeep stamp,.reported reports) =>
    reports.map (fun report => .write none (dropNotice stamp report))
  | (.setMaxLines maxLines,.done) => [.maxLines maxLines]
  | (.clearGlobal,_) => [.clear]
  | _ => []

/-- The runs of a text, whoever wrote it. -/
def plainPaint (_ : Option CommandId) (text : List Char) : List (Run Style) := Style.runs text

theorem acceptedText_unknownCommand (message : OutputMessage) :
    message.acceptedText .unknownCommand=[] := by
  rw [OutputMessage.acceptedText,IngestOutcome.acceptedBytes,Text.fitting_zero,List.take_zero]

theorem global_step {r : Router} (h : r.Named) (op : Op) :
    (r.step op).2.global=(changes (op,(r.step op).1)).foldl (GlobalLog.apply plainPaint) r.global := by
  cases op with
  | add stamp command =>
    cases hl : r.channels.get? command.id with
    | none => rw [step_add_new hl]; rfl
    | some c => rw [step_add_live hl]; rfl
  | remove stamp command =>
    cases hl : r.channels.get? command.id with
    | none => rw [step_remove_none hl]; rfl
    | some c => rw [step_remove_live hl]; rfl
  | changeStatus stamp id oldStatus newStatus => rw [step_changeStatus]; rfl
  | ingest message =>
    cases hl : r.channels.get? message.command with
    | none =>
      rw [step_ingest_none hl,changes,acceptedText_unknownCommand,if_pos rfl]
      rfl
    | some c =>
      have hid : c.id=message.command := h _ c hl
      simp only [step,ingest_some hl,changes,Channel.acceptedText_ingestOutcome]
      split
      · rfl
      · rw [hid]
        rfl
  | upkeep stamp =>
    have reports : (r.step (.upkeep stamp)).1=.reported (r.upkeep stamp).1 := rfl
    rw [reports,changes,List.foldl_map]
    exact upkeep_global r stamp
  | setMaxLines maxLines =>
    by_cases hz : maxLines=0
    · subst hz
      rfl
    · rw [step_setMaxLines hz]
      rfl
  | clearCommand id =>
    cases hl : r.channels.get? id <;> simp only [step,clearCommand,hl] <;> rfl
  | _ => rfl

/-- The changes that a run made, the first one first. -/
def history (past : List Answered) : List Change := past.reverse.flatMap changes

theorem history_cons (e : Answered) (past : List Answered) :
    history (e :: past)=history past++changes e := by
  rw [history,List.reverse_cons,List.flatMap_append,List.flatMap_singleton]
  rfl

/-- The log of all commands is made by what its history says, and by nothing else. -/
theorem global_run (config : RouterConfig) (ops : List Op) :
    ((new config).run ops).2.global=
      (history ((new config).past ops)).foldl (GlobalLog.apply plainPaint)
        (GlobalLog.new config.maxLines) := by
  have h := run_induction (r := new config) (motive := fun past r => r.Named ∧
      r.global=(history past).foldl (GlobalLog.apply plainPaint) (GlobalLog.new config.maxLines))
    ⟨named_new config,rfl⟩
    (fun past r op ih => by
      refine ⟨named_step ih.1 op,?_⟩
      rw [history_cons,List.foldl_append,← ih.2]
      exact global_step ih.1 op) ops
  exact h.2

end FleetConsole.Router
