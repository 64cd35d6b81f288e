import FleetConsole.Proofs.GlobalLog.Joined
import FleetConsole.Proofs.Router.GlobalHistory
import FleetConsole.Proofs.Router.Life

namespace FleetConsole.Router

open GlobalLog (Piece joined)

/-- What an answered operation adds to the log of a live command. -/
def ownOutput (id : CommandId) : Answered → List Char
  | (.ingest message,.ingested outcome) =>
    if message.command=id then Style.plain (message.acceptedText outcome) else []
  | (.upkeep stamp,.reported reports) =>
    (reports.filter (fun d => decide (d.command=id))).flatMap
      (fun d => Channel.dropNotice stamp d.droppedBytes)
  | _ => []

/-- The text of a command since it was last brought in. -/
def ownText (id : CommandId) (past : List Answered) : List Char :=
  (sinceAdd id past).reverse.flatMap (ownOutput id)

/-- What everybody wrote to the log of all commands, in the order of the operations. -/
def pieces (past : List Answered) : List Piece := (history past).filterMap GlobalLog.Change.piece?

theorem ownText_of_adds {id : CommandId} {e : Answered} (h : adds id e=true)
    (past : List Answered) : ownText id (e :: past)=[] := by
  rw [ownText,sinceAdd_of_adds h]
  rfl

theorem ownText_of_not_adds {id : CommandId} {e : Answered} (h : adds id e=false)
    (past : List Answered) : ownText id (e :: past)=ownText id past++ownOutput id e := by
  rw [ownText,sinceAdd_of_not_adds h,List.reverse_cons,List.flatMap_append,List.flatMap_singleton]
  rfl

theorem ownOutput_of_not_concerns {id : CommandId} {e : Answered} (h : e.1.concerns id=false) :
    ownOutput id e=[] := by
  obtain ⟨op,reply⟩ := e
  cases op with
  | ingest message =>
    cases reply with
    | ingested outcome => exact if_neg (of_decide_eq_false h)
    | _ => rfl
  | upkeep stamp => cases h
  | _ => rfl

theorem append_counted {b : LineBuffer Style} (h : b.Counted) (text : List Char) :
    (b.append (Style.runs text)).2.Counted ∧ ((b.append (Style.runs text)).2.Complete →
      b.Complete ∧ (b.append (Style.runs text)).2.text=b.text++Style.plain text) := by
  refine ⟨LineBuffer.counted_append h _,?_⟩
  intro complete
  obtain ⟨before,written⟩ := LineBuffer.append_of_complete h complete
  rw [written,LineBuffer.text_writes]
  exact ⟨before,rfl⟩

/-- An operation that meets a live command adds its output to the command's log. -/
theorem buffer_of_meets {id : CommandId} {e : Answered} {c c' : Channel} (h : Meets id e c c')
    (counted : c.buffer.Counted) :
    c'.buffer.Counted ∧ (c'.buffer.Complete →
      c.buffer.Complete ∧ c'.buffer.text=c.buffer.text++ownOutput id e) := by
  have same (b : LineBuffer Style) (hb : b.Counted) :
      b.Counted ∧ (b.Complete → b.Complete ∧ b.text=b.text++[]) :=
    ⟨hb,fun complete => ⟨complete,(List.append_nil _).symm⟩⟩
  cases h with
  | message text c =>
    have shown : ownOutput id (.ingest ⟨id,text⟩,.ingested (c.ingestOutcome text.toList))=
        Style.plain (c.affordable text.toList) := by
      rw [ownOutput,if_pos rfl]
      exact congrArg Style.plain (c.acceptedText_ingestOutcome ⟨id,text⟩)
    rw [Channel.buffer_ingest,shown]
    split
    next hz =>
      rw [hz]
      exact same c.buffer counted
    · exact append_counted counted _
  | upkeep stamp reports c own =>
    rw [Channel.buffer_upkeep,ownOutput,own,Channel.pending]
    split
    · exact same c.buffer counted
    · have reported := append_counted counted (Channel.dropNotice stamp c.unreported)
      rw [Channel.plain_dropNotice] at reported
      rw [List.flatMap_singleton]
      exact reported
  | quota op quota c hq =>
    have none : ownOutput id (op,.done)=[] := by cases op <;> rfl
    rw [none]
    exact same c.buffer counted
  | maxLines maxLines c hz =>
    refine ⟨LineBuffer.counted_setMaxLines counted maxLines,?_⟩
    intro complete
    obtain ⟨before,kept⟩ := LineBuffer.setMaxLines_of_complete counted complete
    refine ⟨before,?_⟩
    change (c.buffer.setMaxLines maxLines).2.text=c.buffer.text++[]
    rw [kept,List.append_nil]
    rfl
  | clear c =>
    refine ⟨LineBuffer.counted_clear counted,?_⟩
    intro complete
    obtain ⟨before,kept⟩ := LineBuffer.clear_of_complete counted complete
    refine ⟨before,?_⟩
    change c.buffer.clear.text=c.buffer.text++[]
    rw [kept,List.append_nil]
  | elsewhere e c he =>
    rw [ownOutput_of_not_concerns he]
    exact same c.buffer counted
  | _ => exact same c.buffer counted

variable {config : RouterConfig} {ops : List Op} {id : CommandId} {c : Channel}

theorem buffer_of_live (live : ((new config).run ops).2.channels.get? id=some c) :
    c.buffer.Counted ∧ (c.buffer.Complete → c.buffer.text=ownText id ((new config).past ops)) := by
  refine live_induction (motive := fun ops c => c.buffer.Counted ∧
    (c.buffer.Complete → c.buffer.text=ownText id ((new config).past ops))) ?_ ?_ live
  · intro ops op exec hadd
    rw [past_concat,ownText_of_adds hadd]
    exact ⟨LineBuffer.counted_new _,fun _ => rfl⟩
  · intro ops op c c' hl ih hmeets
    obtain ⟨counted,shown⟩ := buffer_of_meets hmeets ih.1
    refine ⟨counted,?_⟩
    intro complete
    obtain ⟨before,text⟩ := shown complete
    rw [past_concat,ownText_of_not_adds (adds_of_meets hmeets),text,ih.2 before]

/-- Nothing accepted is lost, doubled or moved: logs show what was accepted and reported, in the
global one each text on a new line where the line of another writer is open. -/
theorem texts_of_run (config : RouterConfig) (ops : List Op) :
    (∀ id c,((new config).run ops).2.channels.get? id=some c → c.buffer.Complete →
      c.buffer.text=ownText id ((new config).past ops)) ∧
    (((new config).run ops).2.global.buffer.Complete →
      ((new config).run ops).2.global.buffer.text=joined (pieces ((new config).past ops))) := by
  constructor
  · intro id c live complete
    exact (buffer_of_live live).2 complete
  · intro complete
    have paint (writer : Option CommandId) (text : List Char) :
        Run.plainText (plainPaint writer text)=Style.plain text := rfl
    have shows := (GlobalLog.shows_history paint config.maxLines
      (history ((new config).past ops))).2
    rw [← global_run] at shows
    exact (shows complete).text

/-- One command ends the other's line without showing anything, and loses the end of a message. -/
def sharing : List Op :=
  [.add .masked radar,.add .masked camera,.ingest ⟨radar.id,"ping"⟩,
    .ingest ⟨camera.id,"\x1b[1m"⟩,.ingest ⟨camera.id,"frame 1\nframe 2"⟩,.upkeep .masked]

theorem texts_of_sharing :
    ∃ c,((new (.ofQuota 14 20)).run sharing).2.channels.get? camera.id=some c ∧
      c.buffer.Complete ∧ c.buffer.text=("frame 1\nfr[--:--:--] \n"++
        "SHERIFF RATE LIMIT: Ignored 5 bytes of output\n").toList ∧
      ((new (.ofQuota 14 20)).run sharing).2.global.buffer.Complete ∧
      ((new (.ofQuota 14 20)).run sharing).2.global.buffer.text=
        ("[--:--:--] Added [deck] [radar] [sweep]\n[--:--:--] Added [deck] [camera] [record]\n"++
          "ping\nframe 1\nfr\n[--:--:--] Ignored 5 bytes of output from [deck] [camera]\n").toList := by
  have found : (((new (.ofQuota 14 20)).run sharing).2.channels.get? camera.id).map
      (fun c => decide c.buffer.Complete)=some true := by decide +kernel
  obtain ⟨c,live,kept⟩ := Option.map_eq_some_iff.mp found
  have own : c.buffer.Complete := of_decide_eq_true kept
  have shared : ((new (.ofQuota 14 20)).run sharing).2.global.buffer.Complete := by
    decide +kernel
  obtain ⟨ofCommand,ofAll⟩ := texts_of_run (.ofQuota 14 20) sharing
  refine ⟨c,live,own,?_,shared,?_⟩
  · rw [ofCommand camera.id c live own]
    decide +kernel
  · rw [ofAll shared]
    decide +kernel

end FleetConsole.Router
