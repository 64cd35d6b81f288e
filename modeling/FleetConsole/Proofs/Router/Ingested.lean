import FleetConsole.Proofs.Router.SlidingWindow

namespace FleetConsole

theorem RateWindow.record_cons {w : RateWindow} {newest : Nat} {older : List Nat}
    (h : w.slices=newest :: older) (accepted : Nat) :
    w.record accepted=⟨w.quota,(newest+accepted) :: older⟩ := by
  obtain ⟨quota,slices⟩ := w
  cases h
  rfl

namespace Channel

variable (c : Channel) (text : List Char)

theorem affordable_append_excess : c.affordable text++c.excess text=text :=
  List.take_append_drop _ text

/-- What is accepted ends at the last boundary that the window has room for. -/
theorem isGreatest_affordable :
    IsGreatest {b | Text.IsBoundary text b ∧ b ≤ min c.window.remaining (Text.utf8Length text)}
      (Text.utf8Length (c.affordable text)) :=
  Text.isGreatest_fitting c.window.remaining text

theorem remaining_lt_of_cut
    (h : Text.utf8Length (c.affordable text)<Text.utf8Length text) :
    c.window.remaining-Text.utf8Length (c.affordable text)<4 := Text.room_lt_of_fitting h

theorem utf8Length_excess :
    Text.utf8Length (c.excess text)=
      Text.utf8Length text-Text.utf8Length (c.affordable text) := by
  have whole := c.utf8Length_affordable_add_excess text
  omega

theorem affordable_eq_nil_iff :
    c.affordable text=[] ↔ Text.utf8Length (c.affordable text)=0 := Text.utf8Length_eq_zero_iff.symm

theorem ingestOutcome_eq :
    let accepted := Text.utf8Length (c.affordable text)
    c.ingestOutcome text=
      if accepted=Text.utf8Length text then .accepted (Text.utf8Length text)
      else if accepted=0 then .dropped (Text.utf8Length text)
      else .truncated accepted (Text.utf8Length text-accepted) := by
  intro accepted
  have whole := c.utf8Length_affordable_add_excess text
  rw [ingestOutcome,Router.outcome,utf8Length_excess]
  by_cases all : accepted=Text.utf8Length text
  · rw [if_pos all,if_pos (by omega)]
    exact congrArg _ all
  · rw [if_neg all,if_neg (by omega)]
    split
    next none => rw [none,Nat.sub_zero]
    next => rfl

theorem exec_ingest : (c.ingest text).exec=c.exec := by
  by_cases h : c.affordable text=[]
  · rw [ingest_of_nil h]
    rfl
  · rw [ingest_of_ne h]
    rfl

/-- A channel before and after a message, of which some text was kept and some bytes were not. -/
structure Took (c : Channel) (kept : List Char) (dropped : Nat) (c' : Channel) : Prop where
  id : c'.id=c.id
  exec : c'.exec=c.exec
  buffer : c'.buffer=if Text.utf8Length kept=0 then c.buffer
    else (c.buffer.append (Style.runs kept)).2
  window : ∃ newest older,c.window.slices=newest :: older ∧
    c'.window=⟨c.window.quota,(newest+Text.utf8Length kept) :: older⟩
  unreported : c'.unreported=c.unreported+dropped
  stats : c'.stats=⟨c.stats.acceptedBytes+Text.utf8Length kept,c.stats.droppedBytes+dropped,
    c.stats.reportCount⟩

theorem took_ingest (slices : c.window.slices≠[]) :
    c.Took (c.affordable text)
      (Text.utf8Length text-Text.utf8Length (c.affordable text)) (c.ingest text) where
  id := c.id_ingest text
  exec := c.exec_ingest text
  buffer := by
    rw [buffer_ingest]
    simp only [affordable_eq_nil_iff]
  window := by
    obtain ⟨newest,older,hs⟩ := List.exists_cons_of_ne_nil slices
    exact ⟨newest,older,hs,by rw [window_ingest,RateWindow.record_cons hs]⟩
  unreported := by rw [unreported_ingest,utf8Length_excess]
  stats := by rw [stats_ingest,utf8Length_excess]

end Channel

namespace Router

/-- The longest leading part of a message that the window affords, cut between two characters, is
accepted and written to both logs, and the rest is dropped. No other channel changes. -/
theorem longest_prefix_accepted (config : RouterConfig) (ops : List Op) {message : OutputMessage}
    {c : Channel} (live : ((new config).run ops).2.channels.get? message.command=some c) :
    let r := ((new config).run ops).2
    let text := message.text.toList
    let n := Text.utf8Length text
    let outcome := (r.ingest message).1
    let r' := (r.ingest message).2
    ∃ kept rest,text=kept++rest ∧
      let k := Text.utf8Length kept
      IsGreatest {b | Text.IsBoundary text b ∧ b ≤ min c.window.remaining n} k ∧
      (k<n → c.window.remaining-k<4) ∧
      outcome=(if k=n then .accepted n else if k=0 then .dropped n else .truncated k (n-k)) ∧
      (∃ c',r'.channels.get? message.command=some c' ∧ c.Took kept (n-k) c') ∧
      r'.global=(if k=0 then r.global
        else r.global.appendOutput message.command (Style.runs kept)) ∧
      (∀ id,id≠message.command → r'.channels.get? id=r.channels.get? id) ∧
      r'.config=r.config := by
  intro r text n outcome r'
  have named : c.id=message.command := named_run config ops message.command c live
  have effect := ingest_some live
  have answer : outcome=c.ingestOutcome text := congrArg Prod.fst effect
  have channels : r'.channels=r.channels.insert message.command (c.ingest text) :=
    congrArg (fun e => e.2.channels) effect
  have global : r'.global=if c.affordable text=[] then r.global
      else r.global.appendOutput c.id (Style.runs (c.affordable text)) :=
    congrArg (fun e => e.2.global) effect
  refine ⟨c.affordable text,c.excess text,(c.affordable_append_excess text).symm,?_⟩
  intro k
  have slices : c.window.slices≠[] := by
    intro none
    have whole := length_slices_of_live live
    rw [none] at whole
    cases whole
  refine ⟨c.isGreatest_affordable text,c.remaining_lt_of_cut text,?_,?_,?_,?_,?_⟩
  · rw [answer]
    exact c.ingestOutcome_eq text
  · refine ⟨c.ingest text,?_,c.took_ingest text slices⟩
    rw [channels,SortedMap.get?_insert,if_pos rfl]
  · rw [global,named]
    simp only [c.affordable_eq_nil_iff text]
    rfl
  · intro id other
    rw [channels,SortedMap.get?_insert,if_neg (Ne.symm other)]
  · exact congrArg (fun e => e.2.config) effect

/-- Four bytes of room for a character of two bytes and one of three. -/
def narrowed : List Op := [.add .masked camera,.ingest ⟨camera.id,"ab"⟩]

theorem longest_prefix_of_narrowed :
    ∃ c,((new (.ofQuota 6 3)).run narrowed).2.channels.get? camera.id=some c ∧
      c.window.remaining=4 ∧
      ∃ kept rest,"\u00e9\u20ac".toList=kept++rest ∧
        IsGreatest {b | Text.IsBoundary "\u00e9\u20ac".toList b ∧ b ≤ min c.window.remaining 5}
          (Text.utf8Length kept) ∧
        (((new (.ofQuota 6 3)).run narrowed).2.ingest ⟨camera.id,"\u00e9\u20ac"⟩).1=
          .truncated 2 3 := by
  have found : (((new (.ofQuota 6 3)).run narrowed).2.channels.get? camera.id).map
      (fun c => c.window.remaining)=some 4 := by decide +kernel
  have cut : (((new (.ofQuota 6 3)).run narrowed).2.ingest ⟨camera.id,"\u00e9\u20ac"⟩).1=
      .truncated 2 3 := by decide +kernel
  obtain ⟨c,live,room⟩ := Option.map_eq_some_iff.mp found
  obtain ⟨kept,rest,whole,greatest,_⟩ := @longest_prefix_accepted (.ofQuota 6 3) narrowed
    ⟨camera.id,"\u00e9\u20ac"⟩ c live
  exact ⟨c,live,room,kept,rest,whole,greatest,cut⟩

end Router

end FleetConsole
