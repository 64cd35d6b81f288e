import FleetConsole.Proofs.Router.Ingested
import FleetConsole.Proofs.Style.Truncation

namespace FleetConsole

/-- The accepted characters of a message are those that make up the accepted bytes. -/
theorem OutputMessage.acceptedText_of_append {message : OutputMessage} {kept rest : List Char}
    (text : message.text.toList=kept++rest) {outcome : IngestOutcome}
    (bytes : outcome.acceptedBytes=Text.utf8Length kept) : message.acceptedText outcome=kept := by
  have front : (kept++rest).take kept.length=kept := List.take_left
  have fits : Text.fitting (Text.utf8Length kept) (kept++rest)=kept.length := by
    have found := Text.fitting_utf8Length_take
      (show kept.length ≤ (kept++rest).length by simp)
    rwa [front] at found
  rw [acceptedText,bytes,text,fits,front]

theorem Channel.utf8Length_ne_zero_of_truncated {c : Channel} {text : List Char}
    {accepted dropped : Nat} (h : c.ingestOutcome text=.truncated accepted dropped) :
    accepted≠0 := by
  rw [ingestOutcome,Router.outcome] at h
  split at h
  next => cases h
  next =>
    split at h
    next => cases h
    next positive =>
      cases h
      exact positive

namespace Router

/-- The kept part of a truncated message is what is appended to both logs. -/
theorem appends_of_truncated (config : RouterConfig) (ops : List Op) {message : OutputMessage}
    {kept rest : List Char} (text : message.text.toList=kept++rest) {dropped : Nat} :
    let r := ((new config).run ops).2
    (r.ingest message).1=.truncated (Text.utf8Length kept) dropped →
    ∃ c c',r.channels.get? message.command=some c ∧
      (r.ingest message).2.channels.get? message.command=some c' ∧
      c'.buffer=(c.buffer.append (Style.runs kept)).2 ∧
      (r.ingest message).2.global=r.global.appendOutput message.command (Style.runs kept) := by
  intro r cut
  cases live : r.channels.get? message.command with
  | none =>
    rw [ingest_none live] at cut
    cases cut
  | some c =>
    have effect := ingest_some live
    have outcome : c.ingestOutcome message.text.toList=
        .truncated (Text.utf8Length kept) dropped :=
      (congrArg Prod.fst effect).symm.trans cut
    have accepted : c.affordable message.text.toList=kept := by
      rw [← Channel.acceptedText_ingestOutcome,outcome]
      exact OutputMessage.acceptedText_of_append text rfl
    have nonempty : kept≠[] := by
      intro empty
      apply Channel.utf8Length_ne_zero_of_truncated outcome
      rw [empty]
      rfl
    have named : c.id=message.command := named_run config ops message.command c live
    rw [effect]
    refine ⟨c,c.ingest message.text.toList,rfl,?_,?_,?_⟩
    · rw [SortedMap.get?_insert,if_pos rfl]
    · rw [Channel.buffer_ingest,accepted,if_neg nonempty]
    · simp only [accepted,if_neg nonempty,named]

/-- A cut that halves neither an introducer nor a code list leaves the runs of the whole text up to
there, and a message truncated so gives both logs the start of what all of it would. -/
theorem clean_cut_shows_prefix {kept rest : List Char} (clean : Style.CutsCleanly kept rest)
    (t t' : Style.Table) :
    let shown := (Style.scan t kept).1
    let whole := (Style.scan t' (kept++rest)).1
    Style.Continues shown whole ∧ Style.cells shown<+:Style.cells whole ∧
    ∀ (config : RouterConfig) (ops : List Op) (message : OutputMessage) (dropped : Nat),
      let r := ((new config).run ops).2
      message.text.toList=kept++rest →
      (r.ingest message).1=.truncated (Text.utf8Length kept) dropped →
      ∃ c c',r.channels.get? message.command=some c ∧
        (r.ingest message).2.channels.get? message.command=some c' ∧
        c'.buffer=(c.buffer.append shown).2 ∧
        (r.ingest message).2.global=r.global.appendOutput message.command shown := by
  intro shown whole
  have continues : Style.Continues shown whole := Style.continues_scan t t' clean
  refine ⟨continues,continues.cells_prefix,?_⟩
  intro config ops message dropped r text cut
  have same : shown=Style.runs kept := Style.scan_fst t kept
  rw [same]
  exact appends_of_truncated config ops text cut

def alert : String := "\x1b[31mred alert\x1b[0m"

/-- Eight bytes of the message fit, which end within the red text. -/
theorem clean_cut_of_alert :
    let kept := "\x1b[31mred".toList
    let r := ((new (.ofQuota 8 3)).run [.add .masked camera]).2
    Style.CutsCleanly kept " alert\x1b[0m".toList ∧
    (r.ingest ⟨camera.id,alert⟩).1=.truncated 8 10 ∧
    Style.cells (Style.runs kept)<+:Style.cells (Style.runs alert.toList) ∧
    (r.ingest ⟨camera.id,alert⟩).2.global=r.global.appendOutput camera.id (Style.runs kept) := by
  intro kept r
  have clean : Style.CutsCleanly kept " alert\x1b[0m".toList := by
    constructor
    · right
      exact ⟨[],"31mred".toList,rfl,by decide +kernel,by decide +kernel⟩
    · intro halved
      have ends := halved.1
      simp [kept,Style.escape] at ends
  have cut : (r.ingest ⟨camera.id,alert⟩).1=.truncated 8 10 := by decide +kernel
  obtain ⟨_,shown,ingested⟩ := clean_cut_shows_prefix clean Style.Table.initial Style.Table.initial
  obtain ⟨c,c',_,_,_,global⟩ :=
    ingested (.ofQuota 8 3) [.add .masked camera] ⟨camera.id,alert⟩ 10 rfl cut
  exact ⟨clean,cut,shown,global⟩

end Router

end FleetConsole
