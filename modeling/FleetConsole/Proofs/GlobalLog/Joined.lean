import FleetConsole.Proofs.GlobalLog.Change
import FleetConsole.Proofs.LineBuffer.Complete
import Mathlib.Data.List.Induction

namespace FleetConsole.GlobalLog

/-- A text as it is shown, and whose it is: a command's, or the console's own. -/
structure Piece where
  writer : Option CommandId
  text : List Char
  deriving DecidableEq

def Change.piece? : Change → Option Piece
  | .write writer text => some ⟨writer,Style.plain text⟩
  | _ => none

/-- A text put together so far, and who wrote the end of it. -/
structure Joined where
  text : List Char
  writer : Option CommandId
  deriving DecidableEq

/-- Whether a piece cannot go on where the text stands: the line there is not ended, and the
piece is the console's own or that of another command. -/
def Joined.Breaks (j : Joined) (p : Piece) : Prop :=
  j.text≠[] ∧ j.text.getLast?≠some '\n' ∧ (p.writer=none ∨ p.writer≠j.writer)

instance (j : Joined) (p : Piece) : Decidable (j.Breaks p) :=
  inferInstanceAs (Decidable (_ ∧ _ ∧ _))

def Joined.add (j : Joined) (p : Piece) : Joined where
  text := j.text++(if j.Breaks p then ['\n'] else [])++p.text
  writer := if p.text=[] then j.writer else p.writer

def joined (pieces : List Piece) : List Char := (pieces.foldl Joined.add ⟨[],none⟩).text

variable {σ : Type}

/-- A log shows a text, its newest line is open just where the text is, and while it is open
its writer is that of the text. -/
structure Shows (g : GlobalLog σ) (j : Joined) : Prop where
  text : g.buffer.text=j.text
  opened : g.buffer.hasOpenLine=LineBuffer.openAfter false j.text
  writer : g.buffer.hasOpenLine=true → g.writer=j.writer

theorem openAfter_false_iff (text : List Char) :
    LineBuffer.openAfter false text=true ↔ text≠[] ∧ text.getLast?≠some '\n' := by
  rw [LineBuffer.openAfter]
  cases h : text.getLast? with
  | none =>
    have : text=[] := List.getLast?_eq_none_iff.mp h
    simp [this]
  | some c =>
    have : text≠[] := by
      rintro rfl
      cases h
    simp [this]

theorem breaks_iff {g : GlobalLog σ} {j : Joined} (h : g.Shows j) (p : Piece) :
    j.Breaks p ↔ g.buffer.hasOpenLine=true ∧ ¬(p.writer≠none ∧ g.writer=p.writer) := by
  have hopen := openAfter_false_iff j.text
  rw [← h.opened] at hopen
  rw [Joined.Breaks,← and_assoc,← hopen]
  apply and_congr_right
  intro ho
  rw [h.writer ho]
  constructor
  · rintro (own | other) ⟨hw,he⟩
    · exact hw own
    · exact other he.symm
  · intro hn
    by_cases hw : p.writer=none
    · exact .inl hw
    · exact .inr (fun he => hn ⟨hw,he.symm⟩)

/-- The text and the open line after a writing that nothing is lost in. -/
theorem extended_of_complete {g : GlobalLog σ} (hn : g.buffer.Counted) {writer : Option CommandId}
    {runs : List (Run σ)} (hc : (g.extended writer runs).Complete) :
    g.buffer.Complete ∧
    let own := writer≠none ∧ g.writer=writer
    (g.extended writer runs).text=
      g.buffer.text++(if g.buffer.hasOpenLine=true ∧ ¬own then ['\n'] else [])++Run.plainText runs ∧
    (g.extended writer runs).hasOpenLine=
      LineBuffer.openAfter (if own then g.buffer.hasOpenLine else false) (Run.plainText runs) := by
  unfold extended at hc ⊢
  by_cases own : writer≠none ∧ g.writer=writer
  · rw [if_pos own] at hc ⊢
    obtain ⟨before,written⟩ := LineBuffer.append_of_complete hn hc
    rw [written,LineBuffer.text_writes,LineBuffer.hasOpenLine_writes]
    refine ⟨before,?_,?_⟩
    · rw [if_neg (fun h => h.2 own),List.append_nil]
    · rw [if_pos own]
  · rw [if_neg own] at hc ⊢
    obtain ⟨ended,written⟩ := LineBuffer.append_of_complete (LineBuffer.counted_endOpenLine hn) hc
    rw [written,LineBuffer.text_writes,LineBuffer.hasOpenLine_writes,LineBuffer.text_endOpenLine,
      LineBuffer.hasOpenLine_endOpenLine]
    refine ⟨(LineBuffer.complete_endOpenLine_iff g.buffer).mp ended,?_,?_⟩
    · cases g.buffer.hasOpenLine <;> simp [own]
    · rw [if_neg own]

theorem shows_write {paint : Option CommandId → List Char → List (Run σ)} {g : GlobalLog σ}
    {j : Joined} (h : g.Shows j) (hn : g.buffer.Counted) {writer : Option CommandId}
    {text shown : List Char} (hp : Run.plainText (paint writer text)=shown)
    (hc : (g.extended writer (paint writer text)).Complete) :
    (g.apply paint (.write writer text)).Shows (j.add ⟨writer,shown⟩) := by
  obtain ⟨-,htext,hopen⟩ := extended_of_complete hn hc
  rw [hp] at htext hopen
  have breaks := breaks_iff h ⟨writer,shown⟩
  rw [apply_write]
  constructor
  · rw [htext,h.text]
    simp only [Joined.add,breaks]
  · rw [hopen]
    simp only [Joined.add,LineBuffer.openAfter_append,← h.opened,breaks]
    by_cases own : writer≠none ∧ g.writer=writer <;>
      cases g.buffer.hasOpenLine <;> simp [own,LineBuffer.openAfter]
  · intro ho
    have ho' : (g.extended writer (paint writer text)).hasOpenLine=true := ho
    simp only [ho',if_true,Joined.add]
    split
    next hz =>
      rw [hz,LineBuffer.openAfter_nil] at hopen
      rw [hopen] at ho'
      split at ho'
      next own => rw [← h.writer ho']; exact own.2.symm
      · cases ho'
    · rfl

theorem counted_apply {g : GlobalLog σ} (h : g.buffer.Counted)
    (paint : Option CommandId → List Char → List (Run σ)) (change : Change) :
    (g.apply paint change).buffer.Counted := by
  cases change with
  | write writer text =>
    rw [apply_write]
    rw [extended]
    apply LineBuffer.counted_append
    split
    · exact h
    · exact LineBuffer.counted_endOpenLine h
  | maxLines maxLines => exact LineBuffer.counted_setMaxLines h maxLines
  | clear => exact LineBuffer.counted_clear h

/-- The log shows what was written to it, as long as nothing is lost. -/
theorem shows_history {paint : Option CommandId → List Char → List (Run σ)}
    (hp : ∀ writer text,Run.plainText (paint writer text)=Style.plain text) (maxLines : Nat)
    (history : List Change) :
    let g := history.foldl (apply paint) (GlobalLog.new maxLines)
    g.buffer.Counted ∧ (g.buffer.Complete →
      g.Shows ((history.filterMap Change.piece?).foldl Joined.add ⟨[],none⟩)) := by
  induction history using List.reverseRecOn with
  | nil =>
    refine ⟨LineBuffer.counted_new maxLines,fun _ => ⟨rfl,rfl,?_⟩⟩
    intro ho
    cases ho
  | append_singleton history change ih =>
    intro g
    obtain ⟨counted,shows⟩ := ih
    have hg : g=(history.foldl (apply paint) (GlobalLog.new maxLines)).apply paint change := by
      change (history++[change]).foldl (apply paint) (GlobalLog.new maxLines)=_
      rw [List.foldl_append]
      rfl
    refine ⟨hg ▸ counted_apply counted paint change,?_⟩
    intro complete
    rw [hg] at complete ⊢
    rw [List.filterMap_append,List.foldl_append]
    cases change with
    | write writer text =>
      rw [apply_write] at complete
      obtain ⟨before,-⟩ := extended_of_complete counted complete
      exact shows_write (shows before) counted (hp writer text) complete
    | maxLines maxLines =>
      obtain ⟨before,same⟩ := LineBuffer.setMaxLines_of_complete counted complete
      have h := shows before
      change Shows { history.foldl (apply paint) (GlobalLog.new _) with buffer := _ } _
      rw [same]
      exact ⟨h.text,h.opened,h.writer⟩
    | clear =>
      obtain ⟨before,same⟩ := LineBuffer.clear_of_complete counted complete
      have h := shows before
      refine ⟨?_,?_,?_⟩
      · exact (congrArg LineBuffer.text same).trans h.text
      · exact (congrArg LineBuffer.hasOpenLine same).trans h.opened
      · intro ho
        cases ho

end FleetConsole.GlobalLog
