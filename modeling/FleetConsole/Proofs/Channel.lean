import FleetConsole.Proofs.RateWindow
import FleetConsole.Proofs.Style.PlainText
import FleetConsole.Proofs.Text.Fitting
import FleetConsole.Proofs.Text.Numeral
import FleetConsole.Router.Basic

namespace FleetConsole

def IngestOutcome.acceptedBytes : IngestOutcome → Nat
  | .unknownCommand => 0
  | .accepted bytes => bytes
  | .truncated bytes _ => bytes
  | .dropped _ => 0

theorem Router.acceptedBytes_outcome (accepted dropped : Nat) :
    (Router.outcome accepted dropped).acceptedBytes=accepted := by
  rw [Router.outcome]
  split
  · rfl
  · split
    next h => exact h.symm
    · rfl

def IngestOutcome.droppedBytes : IngestOutcome → Nat
  | .unknownCommand => 0
  | .accepted _ => 0
  | .truncated _ bytes => bytes
  | .dropped bytes => bytes

theorem Router.droppedBytes_outcome (accepted dropped : Nat) :
    (Router.outcome accepted dropped).droppedBytes=dropped := by
  rw [Router.outcome]
  split
  next h => exact h.symm
  · split <;> rfl

/-- The characters of a message that a number of accepted bytes stands for. -/
def OutputMessage.acceptedText (message : OutputMessage) (outcome : IngestOutcome) : List Char :=
  message.text.toList.take (Text.fitting outcome.acceptedBytes message.text.toList)

namespace Channel

/-- The characters of a text that the window has room for. -/
def affordable (c : Channel) (text : List Char) : List Char :=
  text.take (Text.fitting c.window.remaining text)

def excess (c : Channel) (text : List Char) : List Char :=
  text.drop (Text.fitting c.window.remaining text)

def ingestOutcome (c : Channel) (text : List Char) : IngestOutcome :=
  Router.outcome (Text.utf8Length (c.affordable text)) (Text.utf8Length (c.excess text))

def ingest (c : Channel) (text : List Char) : Channel :=
  let kept := c.affordable text
  (if kept=[] then c else c.accept (Style.runs kept) (Text.utf8Length kept)).drop
    (Text.utf8Length (c.excess text))

/-- What the next upkeep reports about a channel. -/
def pending (c : Channel) : List DropReport :=
  if c.unreported=0 then [] else [⟨c.id,c.unreported⟩]

def upkeep (c : Channel) (stamp : Stamp) : Channel :=
  (if c.unreported=0 then c
    else c.report.append (Style.runs (dropNotice stamp c.unreported))).rotate

theorem acceptedBytes_ingestOutcome (c : Channel) (text : List Char) :
    (c.ingestOutcome text).acceptedBytes=Text.utf8Length (c.affordable text) :=
  Router.acceptedBytes_outcome _ _

theorem droppedBytes_ingestOutcome (c : Channel) (text : List Char) :
    (c.ingestOutcome text).droppedBytes=Text.utf8Length (c.excess text) :=
  Router.droppedBytes_outcome _ _

/-- What is not accepted of a text is dropped. -/
theorem utf8Length_affordable_add_excess (c : Channel) (text : List Char) :
    Text.utf8Length (c.affordable text)+Text.utf8Length (c.excess text)=Text.utf8Length text := by
  rw [affordable,excess,← Text.utf8Length_append,List.take_append_drop]

theorem acceptedText_ingestOutcome (c : Channel) (message : OutputMessage) :
    message.acceptedText (c.ingestOutcome message.text.toList)=
      c.affordable message.text.toList := by
  rw [OutputMessage.acceptedText,acceptedBytes_ingestOutcome]
  rw [affordable,Text.fitting_utf8Length_take (Text.fitting_le_length _ _)]

theorem utf8Length_affordable_le (c : Channel) (text : List Char) :
    Text.utf8Length (c.affordable text) ≤ c.window.remaining :=
  Text.utf8Length_take_fitting _ _

theorem ingest_of_nil {c : Channel} {text : List Char} (h : c.affordable text=[]) :
    c.ingest text=c.drop (Text.utf8Length (c.excess text)) := by
  rw [ingest,if_pos h]

theorem ingest_of_ne {c : Channel} {text : List Char} (h : c.affordable text≠[]) :
    c.ingest text=
      (c.accept (Style.runs (c.affordable text)) (Text.utf8Length (c.affordable text))).drop
        (Text.utf8Length (c.excess text)) := by
  rw [ingest,if_neg h]

theorem upkeep_of_zero {c : Channel} (h : c.unreported=0) (stamp : Stamp) :
    c.upkeep stamp=c.rotate := by
  rw [upkeep,if_pos h]

theorem upkeep_of_ne_zero {c : Channel} (h : c.unreported≠0) (stamp : Stamp) :
    c.upkeep stamp=(c.report.append (Style.runs (dropNotice stamp c.unreported))).rotate := by
  rw [upkeep,if_neg h]

@[simp] theorem id_ingest (c : Channel) (text : List Char) : (c.ingest text).id=c.id := by
  by_cases h : c.affordable text=[]
  · rw [ingest_of_nil h]
    rfl
  · rw [ingest_of_ne h]
    rfl

@[simp] theorem id_upkeep (c : Channel) (stamp : Stamp) : (c.upkeep stamp).id=c.id := by
  by_cases h : c.unreported=0
  · rw [upkeep_of_zero h]
    rfl
  · rw [upkeep_of_ne_zero h]
    rfl

theorem window_ingest (c : Channel) (text : List Char) :
    (c.ingest text).window=c.window.record (Text.utf8Length (c.affordable text)) := by
  by_cases h : c.affordable text=[]
  · rw [ingest_of_nil h,h]
    exact (RateWindow.record_zero c.window).symm
  · rw [ingest_of_ne h]
    rfl

theorem window_upkeep (c : Channel) (stamp : Stamp) :
    (c.upkeep stamp).window=c.window.rotate := by
  by_cases h : c.unreported=0
  · rw [upkeep_of_zero h]
    rfl
  · rw [upkeep_of_ne_zero h]
    rfl

theorem buffer_ingest (c : Channel) (text : List Char) :
    (c.ingest text).buffer=
      if c.affordable text=[] then c.buffer
      else (c.buffer.append (Style.runs (c.affordable text))).2 := by
  by_cases h : c.affordable text=[]
  · rw [ingest_of_nil h,if_pos h]
    rfl
  · rw [ingest_of_ne h,if_neg h]
    rfl

theorem buffer_upkeep (c : Channel) (stamp : Stamp) :
    (c.upkeep stamp).buffer=
      if c.unreported=0 then c.buffer
      else (c.buffer.append (Style.runs (dropNotice stamp c.unreported))).2 := by
  by_cases h : c.unreported=0
  · rw [upkeep_of_zero h,if_pos h]
    rfl
  · rw [upkeep_of_ne_zero h,if_neg h]
    rfl

theorem stats_ingest (c : Channel) (text : List Char) :
    (c.ingest text).stats=
      { c.stats with
        acceptedBytes := c.stats.acceptedBytes+Text.utf8Length (c.affordable text)
        droppedBytes := c.stats.droppedBytes+Text.utf8Length (c.excess text) } := by
  by_cases h : c.affordable text=[]
  · rw [ingest_of_nil h,h]
    rfl
  · rw [ingest_of_ne h]
    rfl

theorem unreported_ingest (c : Channel) (text : List Char) :
    (c.ingest text).unreported=c.unreported+Text.utf8Length (c.excess text) := by
  by_cases h : c.affordable text=[]
  · rw [ingest_of_nil h]
    rfl
  · rw [ingest_of_ne h]
    rfl

/-- An upkeep counts one more report exactly if it makes one. -/
theorem stats_upkeep (c : Channel) (stamp : Stamp) :
    (c.upkeep stamp).stats=
      { c.stats with reportCount := c.stats.reportCount+UInt32.ofNat c.pending.length } := by
  by_cases h : c.unreported=0
  · rw [upkeep_of_zero h,pending,if_pos h]
    have same : c.stats.reportCount+UInt32.ofNat 0=c.stats.reportCount := UInt32.add_zero _
    rw [List.length_nil,same]
    rfl
  · rw [upkeep_of_ne_zero h,pending,if_neg h]
    rfl

theorem unreported_upkeep (c : Channel) (stamp : Stamp) : (c.upkeep stamp).unreported=0 := by
  by_cases h : c.unreported=0
  · rw [upkeep_of_zero h]
    exact h
  · rw [upkeep_of_ne_zero h]
    rfl

theorem sum_pending (c : Channel) : (c.pending.map DropReport.droppedBytes).sum=c.unreported := by
  by_cases h : c.unreported=0
  · rw [pending,if_pos h,h]
    rfl
  · rw [pending,if_neg h]
    simp

theorem escape_not_mem_stamp (stamp : Stamp) : Style.escape∉stamp.text := by
  cases stamp with
  | masked => decide
  | «at» time =>
    have digit : Style.escape.isDigit=false := by decide
    have hour := Text.not_mem_padded digit 2 time.hour
    have minute := Text.not_mem_padded digit 2 time.minute
    have second := Text.not_mem_padded digit 2 time.second
    have bracket : Style.escape ≠ '[' := by decide
    have colon : Style.escape ≠ ':' := by decide
    have close : Style.escape ≠ ']' ∧ Style.escape ≠ ' ' ∧ Style.escape∉[] := by decide
    change Style.escape ∉ '[' :: Text.padded 2 time.hour ++ ':' :: Text.padded 2 time.minute ++
      ':' :: Text.padded 2 time.second++[']',' ']
    simp only [List.mem_append,List.mem_cons,not_or]
    exact ⟨⟨⟨⟨bracket,hour⟩,colon,minute⟩,colon,second⟩,close⟩

theorem escape_not_mem_dropNotice (stamp : Stamp) (bytes : Nat) :
    Style.escape∉dropNotice stamp bytes := by
  have before : Style.escape∉"\nSHERIFF RATE LIMIT: Ignored ".toList := by decide
  have after : Style.escape∉" bytes of output\n".toList := by decide
  have number : Style.escape∉Text.decimal bytes := Text.not_mem_decimal (by decide) bytes
  simp only [dropNotice,List.mem_append,not_or]
  exact ⟨⟨⟨escape_not_mem_stamp stamp,before⟩,number⟩,after⟩

/-- A report has no escapes in it, so that it is shown as it is. -/
theorem plain_dropNotice (stamp : Stamp) (bytes : Nat) :
    Style.plain (dropNotice stamp bytes)=dropNotice stamp bytes :=
  Style.plain_of_no_escape (escape_not_mem_dropNotice stamp bytes)

end Channel

end FleetConsole
